import LearnUv.PingPong.Programs

/-!
# The bytes between the two sides

A client and the server, with what is in transit between them.  The server sends back what
it has read.  The client sends back the whole buffer it has read into, so the block only
stays a block while the client's reads fill their buffers.

All calls into libuv succeed, and the streams stay open.  Other connections of the server
use the same `msgBuf` (`Event.otherRead`).

In a run whose reads fill their buffers each read takes as many bytes out of one direction as
the write behind it puts into the other, so what is in transit is the block again after every
step (`Steady`).  A read of the client that brings fewer is answered by more than it has taken
out, and this exchange is not conserved, so the condition is exact.

## Main Definitions

* `Session` — a connection, and the bytes in transit
* `Conserved` — they are a block, and what was read was sent back
* `FillsBuffer` — the reads of the client that fill the buffer, or bring nothing

## Main Results

* `conserved_iff` — the bytes are conserved throughout a run exactly when each read of the
  client fills its buffer
-/

namespace LearnUv.PingPong

/-- What one read brought, and what was written for it. -/
structure Exchange where
  read : List UInt8
  written : List UInt8
  deriving DecidableEq, Repr

/-- A connection between the two programs. -/
structure Session (inputBufSize : Int32) where
  /-- `onConnect` was called. -/
  connected : Bool
  counters : Counters
  connection : Connection
  /-- The bytes that were written and not read yet. -/
  toServer : List UInt8
  toClient : List UInt8
  /-- The memory of the server's `msgBuf`. -/
  msgBuf : CharArray (intLen inputBufSize)
  exchanges : List Exchange
  deriving DecidableEq

namespace Session

variable {blockSize inputBufSize : Int32}

/-- The callbacks libuv makes on either side, and what other connections do to `msgBuf`. -/
inductive Event
  /-- `onConnect`. -/
  | connected
  /-- `onReadData`, with the memory `malloc` returned for the read. -/
  | clientRead (memory : List UInt8) (nread : ℕ)
  /-- `on_read_client`. -/
  | serverRead (nread : ℕ)
  /-- `on_read_client` for another connection. -/
  | otherRead (data : List UInt8)
  deriving DecidableEq, Repr

/-- Before the connection is made. -/
def start (counters : Counters) (msgBuf : CharArray (intLen inputBufSize)) :
    Session inputBufSize where
  connected := false
  counters := counters
  connection := ⟨0⟩
  toServer := []
  toClient := []
  msgBuf := msgBuf
  exchanges := []

/-- One callback.  What it writes is in transit from then on. -/
def step (blockSize : Int32) (s : Session inputBufSize) : Event → Exec (Session inputBufSize)
  | .connected => do
      let (counters, reaction) ← onConnect blockSize s.counters 0 0
      return { s with
        connected := true
        counters
        toServer := s.toServer ++ reaction.bytes (block blockSize) }
  | .clientRead memory nread => do
      let data := s.toClient.take nread
      let array ← CharArray.store ⟨memory, rfl⟩ 0 data
      let (connection, reaction) ←
        onReadData s.connection nread (commonAllocBuffer (UInt64.ofNat memory.length)) 0
      let written := reaction.bytes array
      return { s with
        connection
        toClient := s.toClient.drop nread
        toServer := s.toServer ++ written
        exchanges := s.exchanges ++ [⟨data, written⟩] }
  | .serverRead nread => do
      let data := s.toServer.take nread
      let msgBuf ← s.msgBuf.store 0 data
      let written := (onReadClient nread).bytes msgBuf
      return { s with
        msgBuf
        toServer := s.toServer.drop nread
        toClient := s.toClient ++ written
        exchanges := s.exchanges ++ [⟨data, written⟩] }
  | .otherRead data => do
      let msgBuf ← s.msgBuf.store 0 data
      return { s with msgBuf }

/-- Which callbacks libuv may make: a read is of bytes in transit, and of no more than the
buffer and its memory hold. -/
def Enabled (s : Session inputBufSize) : Event → Prop
  | .connected => s.connected = false
  | .clientRead memory nread =>
      memory.length ≤ ptrdiffMax ∧ nread ≤ s.toClient.length ∧ nread ≤ memory.length
  | .serverRead nread =>
      nread ≤ s.toServer.length ∧ nread ≤ (allocBuffer inputBufSize).len.toNat ∧
        nread ≤ intLen inputBufSize
  | .otherRead data => data.length ≤ intLen inputBufSize

instance decidableEnabled (s : Session inputBufSize) (event : Event) :
    Decidable (s.Enabled event) :=
  match event with
  | .connected => inferInstanceAs (Decidable (_ = _))
  | .clientRead _ _ => inferInstanceAs (Decidable (_ ∧ _ ∧ _))
  | .serverRead _ => inferInstanceAs (Decidable (_ ∧ _ ∧ _))
  | .otherRead _ => inferInstanceAs (Decidable (_ ≤ _))

/-- From the connect on, the bytes in transit are a block; and each read was answered by
the bytes that were read. -/
def Conserved (blockSize : Int32) (s : Session inputBufSize) : Prop :=
  (s.connected = true → s.toServer.length + s.toClient.length = intLen blockSize) ∧
    ∀ exchange ∈ s.exchanges, exchange.written = exchange.read

/-- A read of the client fills the buffer, or brings nothing. -/
def Event.FillsBuffer : Event → Prop
  | .clientRead memory nread => nread = 0 ∨ nread = memory.length
  | _ => True

/-! ## What the callbacks do -/

/-- **The connect** puts a block in transit. -/
theorem step_connected (hblock : 0 < blockSize) (s : Session inputBufSize) :
    ∃ written, written.length = intLen blockSize ∧
      s.step blockSize .connected =
        .ok { s with connected := true, toServer := s.toServer ++ written } := by
  refine ⟨_, ?_, rfl⟩
  have hlt := intLen_lt blockSize
  have hsize := toNat_sizeOfInt_of_pos hblock
  rw [Reaction.bytes, UvBuf.bytes, clientBuf, uvBufInit_len (by omega), hsize,
    List.length_take, (block blockSize).length_eq, Nat.min_self]

/-- **A read of the client** is answered by the whole buffer. -/
theorem step_clientRead {s : Session inputBufSize} {memory : List UInt8} {nread : ℕ}
    (henabled : s.Enabled (.clientRead memory nread)) :
    ∃ connection written, s.step blockSize (.clientRead memory nread) =
        .ok { s with
          connection
          toClient := s.toClient.drop nread
          toServer := s.toServer ++ written
          exchanges := s.exchanges ++ [⟨s.toClient.take nread, written⟩] } ∧
      written = if nread = 0 then [] else s.toClient.take nread ++ memory.drop nread := by
  obtain ⟨hmemory, htransit, hfits⟩ := henabled
  have hdata : (s.toClient.take nread).length = nread := by
    rw [List.length_take, Nat.min_eq_left htransit]
  have hroom : 0 + (s.toClient.take nread).length ≤ memory.length := by omega
  obtain ⟨array, hstore, hbytes⟩ := CharArray.store_of_fits ⟨memory, rfl⟩ hroom
  have hlen : (UInt64.ofNat memory.length).toNat = memory.length := by
    rw [UInt64.toNat_ofNat', Nat.mod_eq_of_lt]
    unfold ptrdiffMax at hmemory
    omega
  rcases Nat.eq_zero_or_pos nread with rfl | hpos
  · refine ⟨s.connection, [], ?_, rfl⟩
    rw [step, hstore]
    rfl
  · refine ⟨⟨s.connection.bytesRead + Int64.ofInt nread⟩, _, ?_, (if_neg hpos.ne').symm⟩
    have hwritten : UvBuf.bytes (commonAllocBuffer (UInt64.ofNat memory.length)) array =
        s.toClient.take nread ++ memory.drop nread := by
      rw [UvBuf.bytes, commonAllocBuffer, hlen, List.take_of_length_le array.length_eq.le,
        hbytes]
      simp only [overwrite, hdata, List.take_zero, List.nil_append, Nat.zero_add]
    have hreact : onReadData s.connection nread
        (commonAllocBuffer (UInt64.ofNat memory.length)) 0 =
          .ok (⟨s.connection.bytesRead + Int64.ofInt nread⟩,
            .write (commonAllocBuffer (UInt64.ofNat memory.length))) := by
      rw [onReadData, if_neg (by omega), if_neg (by omega)]
      rfl
    rw [step, hstore, AbortingRun.ok_bind, hreact, AbortingRun.ok_bind, ← hwritten]
    rfl

/-- **A read of the server** is answered by what was read. -/
theorem step_serverRead {s : Session inputBufSize} {nread : ℕ}
    (henabled : s.Enabled (.serverRead nread)) :
    ∃ msgBuf, s.step blockSize (.serverRead nread) =
        .ok { s with
          msgBuf
          toServer := s.toServer.drop nread
          toClient := s.toClient ++ s.toServer.take nread
          exchanges := s.exchanges ++ [⟨s.toServer.take nread, s.toServer.take nread⟩] } := by
  obtain ⟨htransit, -, hfits⟩ := henabled
  have hdata : (s.toServer.take nread).length = nread := by
    rw [List.length_take, Nat.min_eq_left htransit]
  have hroom : 0 + (s.toServer.take nread).length ≤ intLen inputBufSize := by omega
  obtain ⟨msgBuf, hstore, hbytes⟩ := s.msgBuf.store_of_fits hroom
  refine ⟨msgBuf, ?_⟩
  have hwritten : (onReadClient nread).bytes msgBuf = s.toServer.take nread := by
    rcases Nat.eq_zero_or_pos nread with rfl | hpos
    · rfl
    · have hlt := intLen_lt inputBufSize
      have hlen : (UInt64.ofNat nread).toNat = nread := by
        rw [UInt64.toNat_ofNat', Nat.mod_eq_of_lt (by omega)]
      have hfront := take_overwrite_zero s.msgBuf.bytes (s.toServer.take nread)
      rw [hdata] at hfront
      rw [onReadClient, if_neg (by omega), if_neg (by omega), Int.toNat_natCast,
        Reaction.bytes, UvBuf.bytes, uvBufInit_len (by omega), hlen, hbytes, hfront]
  rw [step, hstore, AbortingRun.ok_bind, AbortingRun.pure_eq_ok, hwritten]

theorem step_otherRead {s : Session inputBufSize} {data : List UInt8}
    (henabled : s.Enabled (.otherRead data)) :
    ∃ msgBuf, s.step blockSize (.otherRead data) = .ok { s with msgBuf } := by
  obtain ⟨msgBuf, hstore, -⟩ :=
    s.msgBuf.store_of_fits (show 0 + data.length ≤ _ by rw [Nat.zero_add]; exact henabled)
  refine ⟨msgBuf, ?_⟩
  rw [step, hstore]
  rfl

theorem step_returns (hblock : 0 < blockSize) {s : Session inputBufSize} {event : Event}
    (henabled : s.Enabled event) : ∃ t, s.step blockSize event = .ok t := by
  cases event with
  | connected =>
      obtain ⟨written, -, hstep⟩ := step_connected hblock s
      exact ⟨_, hstep⟩
  | clientRead memory nread =>
      obtain ⟨connection, written, hstep, -⟩ := step_clientRead henabled
      exact ⟨_, hstep⟩
  | serverRead nread =>
      obtain ⟨msgBuf, hstep⟩ := step_serverRead henabled
      exact ⟨_, hstep⟩
  | otherRead data =>
      obtain ⟨msgBuf, hstep⟩ := step_otherRead henabled
      exact ⟨_, hstep⟩

/-! ## Conservation -/

/-- The invariant: besides, nothing is in transit before the connect. -/
structure Steady (blockSize : Int32) (s : Session inputBufSize) : Prop where
  conserved : s.Conserved blockSize
  idle : s.connected = false → s.toServer = [] ∧ s.toClient = []

theorem steady_start (counters : Counters) (msgBuf : CharArray (intLen inputBufSize)) :
    (start counters msgBuf).Steady blockSize where
  conserved := by
    constructor
    · intro h
      cases h
    · intro exchange hmem
      cases hmem
  idle := fun _ => ⟨rfl, rfl⟩

/-- A read moves bytes from one direction to the other. -/
theorem Steady.exchange {s : Session inputBufSize} (hs : s.Steady blockSize)
    {t : Session inputBufSize} (data : List UInt8) (hconnected : t.connected = s.connected)
    (htransit : t.toServer.length + t.toClient.length = s.toServer.length + s.toClient.length)
    (hexchanges : t.exchanges = s.exchanges ++ [⟨data, data⟩]) : t.Steady blockSize where
  conserved := by
    refine ⟨?_, ?_⟩
    · rw [hconnected, htransit]
      exact hs.conserved.1
    · rw [hexchanges]
      intro exchange hmem
      rcases List.mem_append.mp hmem with hold | hnew
      · exact hs.conserved.2 exchange hold
      · rw [List.mem_singleton.mp hnew]
  idle := by
    intro h
    obtain ⟨hserver, hclient⟩ := hs.idle (hconnected ▸ h)
    rw [hserver, hclient] at htransit
    simp only [List.length_nil, Nat.add_zero, Nat.add_eq_zero_iff,
      List.length_eq_zero_iff] at htransit
    exact htransit

/-- A callback keeps the invariant, unless it is a read of the client that does not fill
its buffer. -/
theorem Steady.step (hblock : 0 < blockSize) {s t : Session inputBufSize}
    (hs : s.Steady blockSize) {event : Event} (henabled : s.Enabled event)
    (hstep : s.step blockSize event = .ok t) (hfills : event.FillsBuffer) :
    t.Steady blockSize := by
  cases event with
  | connected =>
      obtain ⟨written, hlen, hstep'⟩ := step_connected hblock s
      obtain rfl := AbortingRun.ok_unique hstep hstep'
      obtain ⟨hserver, hclient⟩ := hs.idle henabled
      refine ⟨⟨fun _ => ?_, hs.conserved.2⟩, ?_⟩
      · rw [hserver, hclient, List.nil_append, hlen]
        rfl
      · intro h
        cases h
  | clientRead memory nread =>
      obtain ⟨connection, written, hstep', hwritten⟩ := step_clientRead henabled
      obtain rfl := AbortingRun.ok_unique hstep hstep'
      have hexact : written = s.toClient.take nread := by
        rcases hfills with rfl | rfl
        · rw [hwritten, if_pos rfl, List.take_zero]
        · rw [hwritten, List.drop_length, List.append_nil]
          split
          · next hzero => rw [hzero, List.take_zero]
          · rfl
      refine hs.exchange (s.toClient.take nread) rfl ?_ (by rw [hexact])
      simp only [hexact, List.length_append, List.length_take, List.length_drop]
      omega
  | serverRead nread =>
      obtain ⟨msgBuf, hstep'⟩ := step_serverRead henabled
      obtain rfl := AbortingRun.ok_unique hstep hstep'
      refine hs.exchange (s.toServer.take nread) rfl ?_ rfl
      simp only [List.length_append, List.length_take, List.length_drop]
      omega
  | otherRead data =>
      obtain ⟨msgBuf, hstep'⟩ := step_otherRead henabled
      obtain rfl := AbortingRun.ok_unique hstep hstep'
      exact ⟨hs.conserved, hs.idle⟩

/-- A read of the client that does not fill its buffer is answered by more bytes than were
read. -/
theorem fillsBuffer_of_conserved {s t : Session inputBufSize} {event : Event}
    (henabled : s.Enabled event) (hstep : s.step blockSize event = .ok t)
    (ht : t.Conserved blockSize) : event.FillsBuffer := by
  cases event with
  | clientRead memory nread =>
      obtain ⟨connection, written, hstep', hwritten⟩ := step_clientRead henabled
      obtain rfl := AbortingRun.ok_unique hstep hstep'
      have hanswer : written = s.toClient.take nread :=
        ht.2 _ (List.mem_append_right _ (List.mem_singleton_self _))
      rcases Nat.eq_zero_or_pos nread with hzero | hpos
      · exact Or.inl hzero
      · rw [if_neg hpos.ne', hanswer] at hwritten
        have hdrop := List.drop_eq_nil_iff.mp (List.self_eq_append_right.mp hwritten)
        exact Or.inr (Nat.le_antisymm henabled.2.2 hdrop)
  | connected => trivial
  | serverRead nread => trivial
  | otherRead data => trivial

/-- **The bytes in transit are conserved throughout a run exactly when each read of the
client that brings something fills its buffer**: for every block, every buffer of the
server, and every order and size of the reads on either side. -/
theorem conserved_iff (hblock : 0 < blockSize) (counters : Counters)
    (msgBuf : CharArray (intLen inputBufSize)) {history : List Event}
    (henabled : AbortingRun.EachStep (step blockSize) Enabled (start counters msgBuf) history) :
    AbortingRun.Always (step blockSize) (Conserved blockSize) (start counters msgBuf) history ↔
      ∀ event ∈ history, event.FillsBuffer := by
  rw [← AbortingRun.eachStep_iff_forall_mem (fun _ _ h => step_returns hblock h) henabled]
  refine AbortingRun.always_iff_eachStep (I := Steady blockSize) (fun _ hI => hI.conserved)
    (fun _ _ _ hI h hstep hfills => hI.step hblock h hstep hfills)
    (fun _ _ _ _ h hstep ht => fillsBuffer_of_conserved h hstep ht) ?_
    (steady_start counters msgBuf) henabled
  intro s event abort _ h hstep
  obtain ⟨t, hreturns⟩ := step_returns hblock h
  rw [hreturns] at hstep
  cases hstep

/-- A client with a block of three bytes, and a server with a buffer of eight. -/
def small : Session 8 := start ⟨1, 0⟩ (CharArray.zeros _)

/-- The block goes to the server, in two reads, and back, into a buffer of three bytes. -/
theorem conserved_iff_fullReads :
    AbortingRun.Always (step 3) (Conserved 3) small
        [.connected, .serverRead 2, .serverRead 1, .clientRead [0, 0, 0] 3] ↔
      ∀ event ∈ ([.connected, .serverRead 2, .serverRead 1, .clientRead [0, 0, 0] 3] :
        List Event), event.FillsBuffer :=
  conserved_iff (by decide) ⟨1, 0⟩ _ (AbortingRun.eachStep_of_runEnabled (by decide +kernel))

/-- The block goes to the server and back, into a buffer of the size libuv suggests. -/
theorem not_conserved_largeBuffer :
    AbortingRun.EachStep (step 3) Enabled small
        ([.connected, .serverRead 3] ++ [.clientRead (List.replicate 65536 0) 3]) ∧
      ¬AbortingRun.Always (step 3) (Conserved 3) small
        ([.connected, .serverRead 3] ++ [.clientRead (List.replicate 65536 0) 3]) := by
  have hpair : (AbortingRun.run (step 3) small [.connected, .serverRead 3]).map
      (fun s => (s.connected, s.toServer, s.toClient.length)) = .ok (true, [], 3) := by
    decide +kernel
  obtain ⟨s, hrun, hs⟩ := AbortingRun.exists_of_map_eq_ok hpair
  simp only [Prod.mk.injEq] at hs
  obtain ⟨hconnected, hserver, hclient⟩ := hs
  have henabled : s.Enabled (.clientRead (List.replicate 65536 0) 3) := by
    refine ⟨?_, hclient.ge, ?_⟩
    · rw [List.length_replicate]
      decide
    · rw [List.length_replicate]
      decide
  refine ⟨AbortingRun.eachStep_append.mpr ⟨?_, ?_⟩, ?_⟩
  · exact AbortingRun.eachStep_of_runEnabled (by decide +kernel)
  · intro s' hrun'
    obtain rfl := AbortingRun.ok_unique hrun hrun'
    exact ⟨henabled, fun _ _ => trivial⟩
  · intro halways
    obtain ⟨connection, written, hstep, hwritten⟩ := @step_clientRead 3 _ _ _ _ henabled
    have hwhole := (AbortingRun.run_concat_eq_ok (step 3)).mpr ⟨s, hrun, hstep⟩
    have htotal := (AbortingRun.always_iff.mp halways _ _ List.prefix_rfl hwhole).1 hconnected
    -- the buffer is written as it is, whatever was read
    have hlen : written.length = 65536 := by
      rw [hwritten, if_neg three_ne_zero, List.length_append, List.length_take,
        List.length_drop, List.length_replicate, hclient]
      decide
    have hthree : intLen 3 = 3 := by decide
    dsimp only at htotal
    rw [hserver, List.nil_append, hlen, hthree] at htotal
    omega

end Session

end LearnUv.PingPong
