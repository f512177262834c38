import LearnUv.Socks.TunnelSpec

/-!
# Relaying through a connected tunnel

What the proxy passes on once the tunnel is connected, in both directions, and when that
is what it was given.

A read from the server is passed on as a whole buffer, however little was read, and the
buffer ends behind the tunnel.  A read can fill the buffer only by overrunning the tunnel,
so there is no read from the server that is passed on as it is: `run_serverEvents` bounds
what was read and counts what is written, and the two never agree.

A read from the client is passed on as it is, unless `client_buf` then begins like a
request: the test for a request comes before that for the state.

## Main Definitions

* `serverEvents` — the callbacks for some reads from the server

## Main Results

* `relayed_eq_reads_iff` — the server's bytes reach the client exactly when there are none
* `forwards_reads_iff` — the client's bytes reach the server, and nothing else happens,
  exactly when no read leaves a request in `client_buf`
-/

namespace LearnUv.Socks

/-- Blocks of bounded length have at most so much together. -/
theorem length_flatten_le {α : Type} {m : ℕ} {blocks : List (List α)}
    (hle : ∀ block ∈ blocks, block.length ≤ m) : blocks.flatten.length ≤ m * blocks.length := by
  induction blocks with
  | nil => simp
  | cons block blocks ih =>
      have hblock := hle block List.mem_cons_self
      have hrest := ih fun block' h => hle block' (List.mem_cons_of_mem _ h)
      rw [List.flatten_cons, List.length_append, List.length_cons, Nat.mul_succ]
      omega

namespace Session

variable {gap : ℕ}

/-! ## From the server to the client -/

/-- The callbacks for some reads from the server, each with what lies behind the tunnel at
that time. -/
def serverEvents (reads : List (List UInt8 × CharArray gap)) : List (Event gap) :=
  reads.map fun read => .serverData read.1 read.2

/-- **Reads from the server that returned** have left `gap` bytes of the buffer free, and
each has written all of the buffer. -/
theorem run_serverEvents {s t : Session gap} (hlive : s.freed = false)
    {reads : List (List UInt8 × CharArray gap)} (hrun : s.run (serverEvents reads) = .ok t) :
    (∀ read ∈ reads, gap + read.1.length ≤ maxSize) ∧
      ∃ written, relayed t.log = relayed s.log ++ written ∧
        written.length = maxSize * reads.length := by
  induction reads generalizing s with
  | nil =>
      cases hrun
      exact ⟨List.forall_mem_nil _, [], (List.append_nil _).symm, rfl⟩
  | cons read reads ih =>
      obtain ⟨u, hstep, hrun⟩ := run_cons_eq_ok.mp hrun
      obtain ⟨hinside, serverBuf, stale, hlen, rfl⟩ := serverData_eq_ok hlive hstep
      have hbehind : read.2.bytes.length = gap := read.2.length_eq
      obtain ⟨hrest, written, hrelayed, hwritten⟩ := ih (by exact hlive) hrun
      refine ⟨List.forall_mem_cons.mpr ⟨hinside, hrest⟩,
        read.1 ++ stale ++ read.2.bytes ++ written, ?_, ?_⟩
      · rw [hrelayed, record, relayed_append, List.append_assoc]
        simp [relayed]
      · simp only [List.length_append, List.length_cons, hwritten, Nat.mul_succ]
        omega

/-- **The relay from the server is exact when nothing is read**, and only then: for every
connected tunnel and every sequence of reads, either one of them overruns the tunnel, or
what is written to the client is too long by `gap` bytes for each of them, at least. -/
theorem relayed_eq_reads_iff {s : Session gap} (hgap : 0 < gap) (hs : s.Established)
    {reads : List (List UInt8 × CharArray gap)} :
    (∃ t, s.run (serverEvents reads) = .ok t ∧
      relayed t.log = relayed s.log ++ (reads.map Prod.fst).flatten) ↔ reads = [] := by
  constructor
  · rintro ⟨t, hrun, hexact⟩
    obtain ⟨hinside, written, hrelayed, hwritten⟩ := run_serverEvents hs.live hrun
    rw [hrelayed] at hexact
    have hlen := congrArg List.length (List.append_cancel_left hexact)
    have hle : (reads.map Prod.fst).flatten.length ≤ (maxSize - gap) * reads.length := by
      rw [← List.length_map (f := Prod.fst)]
      refine length_flatten_le (List.forall_mem_map.mpr fun read hread => ?_)
      have := hinside read hread
      omega
    by_contra hne
    have hpos : 0 < reads.length := List.length_pos_iff.mpr hne
    have hlt : (maxSize - gap) * reads.length < maxSize * reads.length :=
      Nat.mul_lt_mul_of_pos_right (Nat.sub_lt (by decide) hgap) hpos
    omega
  · rintro rfl
    exact ⟨s, rfl, (List.append_nil _).symm⟩

/-- A tunnel in memory that holds only zeros. -/
def zeroTunnel : Tunnel 248 where
  status := .tunnelStart
  addr := ⟨[], 0⟩
  serverBufOffset := 0
  clientBuf := CharArray.zeros _
  serverBuf := CharArray.zeros _

/-- A request for port 80 of 127.0.0.1, without a user name. -/
def localRequest : List UInt8 := [4, 1, 0, 80, 127, 0, 0, 1, 0]

/-- What it asks for. -/
def localDest : Option SockAddrIn := some ⟨⟨127, 0, 0, 1⟩, 80⟩

/-- The request is received, and the connect succeeds. -/
def opened : List (Event 248) := [.clientData localRequest, .connectDone localDest 0]

theorem exists_established : ∃ s, Reaches zeroTunnel opened s ∧ s.Established := by
  have hrun : (runEvents zeroTunnel opened).map (fun s => (s.freed, s.tunnel.status)) =
      some (false, .connectedToServer) := by decide +kernel
  obtain ⟨s, hreach, hs⟩ := exists_reaches_of_map hrun
  exact ⟨s, hreach, congrArg Prod.fst hs, congrArg Prod.snd hs⟩

/-- A connected tunnel, and a read of two bytes. -/
theorem relayed_eq_reads_twoBytes : ∃ s : Session 248, s.Established ∧
    ((∃ t, s.run (serverEvents [([72, 105], CharArray.zeros _)]) = .ok t ∧
      relayed t.log = relayed s.log ++
        ([([72, 105], CharArray.zeros 248)].map Prod.fst).flatten) ↔
      [(([72, 105] : List UInt8), CharArray.zeros 248)] = []) := by
  obtain ⟨s, -, hs⟩ := exists_established
  exact ⟨s, hs, relayed_eq_reads_iff (by decide) hs⟩

/-- The server sends one byte, through a tunnel that was opened as it should be, and 4096
bytes are written to the client. -/
theorem not_relayed_oneByte : ∃ s t : Session 248, Reaches zeroTunnel opened s ∧
    s.Established ∧ s.run (serverEvents [([72], CharArray.zeros _)]) = .ok t ∧
      relayed t.log ≠ relayed s.log ++ ([([72], CharArray.zeros 248)].map Prod.fst).flatten := by
  obtain ⟨s, hreach, hs⟩ := exists_established
  have hinside : 248 + [(72 : UInt8)].length ≤ maxSize := by decide
  obtain ⟨serverBuf, stale, -, hstep⟩ :=
    step_serverData hs.live (CharArray.zeros _) hinside
  have hrun : s.run (serverEvents [([72], CharArray.zeros _)]) = .ok _ :=
    run_cons_eq_ok.mpr ⟨_, hstep, rfl⟩
  refine ⟨s, _, hreach, hs, hrun, fun hexact => ?_⟩
  obtain ⟨-, written, hrelayed, hlen⟩ := run_serverEvents hs.live hrun
  rw [hrelayed] at hexact
  rw [List.append_cancel_left hexact] at hlen
  cases hlen

/-! ## From the client to the server -/

/-- A read that leaves no request in `client_buf` is forwarded. -/
theorem Established.step_forward {s : Session gap} (hs : s.Established) {data : List UInt8}
    (hfits : data.length ≤ maxSize)
    (hbase : ¬OpensRequest (overwrite s.tunnel.clientBuf.bytes 0 data)) :
    ∃ t, s.step (.clientData data) = .ok t ∧ t.Established ∧
      t.log = s.log ++ [.forward data] ∧
      t.tunnel.clientBuf.bytes = overwrite s.tunnel.clientBuf.bytes 0 data := by
  obtain ⟨clientBuf, hbytes, hstep⟩ := step_clientData hs.live hfits
  rw [if_neg hbase, if_pos hs.status] at hstep
  exact ⟨_, hstep, ⟨hs.live, hs.status⟩, rfl, hbytes⟩

/-- A read that leaves a request in `client_buf` is taken for one, in every state. -/
theorem step_request {s : Session gap} (hlive : s.freed = false) {data : List UInt8}
    (hfits : data.length ≤ maxSize)
    (hbase : OpensRequest (overwrite s.tunnel.clientBuf.bytes 0 data)) :
    ∃ clientBuf : CharArray maxSize,
      clientBuf.bytes = overwrite s.tunnel.clientBuf.bytes 0 data ∧
      s.step (.clientData data) = .ok ((s.received clientBuf).request clientBuf.bytes) := by
  obtain ⟨clientBuf, hbytes, hstep⟩ := step_clientData hlive hfits
  rw [if_pos hbase, ← hbytes] at hstep
  exact ⟨clientBuf, hbytes, hstep⟩

/-- After a request, the record does not go on with the read that held it. -/
theorem request_not_forwarded {s u t : Session gap} {base data : List UInt8}
    {events : List (Event gap)} {actions : List Action} (hrequest : u = s.request base)
    (hrun : u.run events = .ok t) : t.log ≠ s.log ++ .forward data :: actions := by
  intro hlog
  obtain ⟨rest, hreply, -⟩ := s.request_log base
  obtain ⟨later, hlater⟩ := run_log hrun
  rw [hlog, hrequest, hreply, List.append_assoc] at hlater
  cases List.append_cancel_left hlater

/-- **A connected tunnel is transparent to its client exactly when no read leaves the
bytes 4, 1 at the start of `client_buf`**: each read is then forwarded, and nothing else
is done.  What a read of fewer than two bytes leaves there includes what was there. -/
theorem forwards_reads_iff {s : Session gap} (hs : s.Established)
    {reads : List (List UInt8)} (hfits : ∀ data ∈ reads, data.length ≤ maxSize) :
    (∃ t, s.run (reads.map .clientData) = .ok t ∧
      t.log = s.log ++ reads.map .forward ∧ t.tunnel.status = .connectedToServer) ↔
      ∀ base ∈ clientBuffers s.tunnel.clientBuf.bytes reads, ¬OpensRequest base := by
  induction reads generalizing s with
  | nil =>
      have hrun : s.run [] = .ok s := rfl
      simp [clientBuffers, hrun, hs.status]
  | cons data reads ih =>
      have hdata := hfits data List.mem_cons_self
      have hrest : ∀ d ∈ reads, d.length ≤ maxSize :=
        fun d hd => hfits d (List.mem_cons_of_mem _ hd)
      rw [clientBuffers, List.forall_mem_cons]
      by_cases hbase : OpensRequest (overwrite s.tunnel.clientBuf.bytes 0 data)
      · refine iff_of_false ?_ fun h => h.1 hbase
        rintro ⟨t, hrun, hlog, -⟩
        obtain ⟨clientBuf, -, hstep⟩ := step_request hs.live hdata hbase
        obtain ⟨u, hu, hrun⟩ := run_cons_eq_ok.mp hrun
        obtain rfl := AbortingRun.ok_unique hstep hu
        exact request_not_forwarded (s := s.received clientBuf) rfl hrun hlog
      · obtain ⟨u, hstep, hu, hlog, hbytes⟩ := hs.step_forward hdata hbase
        rw [← hbytes, ← ih hu hrest, hlog]
        simp only [List.map_cons, run_cons_eq_ok, hstep, Except.ok.injEq, exists_eq_left',
          List.append_assoc, List.singleton_append, hbytes, hbase, not_false_eq_true,
          true_and]

/-- A connected tunnel, and a read of two bytes that are not those of a request. -/
theorem forwards_reads_plain : ∃ s : Session 248, s.Established ∧
    ((∃ t, s.run ([[72, 105]].map .clientData) = .ok t ∧
      t.log = s.log ++ [[72, 105]].map .forward ∧ t.tunnel.status = .connectedToServer) ↔
      ∀ base ∈ clientBuffers s.tunnel.clientBuf.bytes [[72, 105]], ¬OpensRequest base) := by
  obtain ⟨s, -, hs⟩ := exists_established
  exact ⟨s, hs, forwards_reads_iff hs (by simp [maxSize])⟩

/-- The client sends the bytes 4, 1, 5 through a tunnel that was opened as it should be. -/
theorem not_forwards_header : ∃ s : Session 248, Reaches zeroTunnel opened s ∧
    s.Established ∧ ¬∃ t, s.run ([[4, 1, 5]].map .clientData) = .ok t ∧
      t.log = s.log ++ [[4, 1, 5]].map .forward ∧ t.tunnel.status = .connectedToServer := by
  obtain ⟨s, hreach, hs⟩ := exists_established
  refine ⟨s, hreach, hs, ?_⟩
  rintro ⟨t, hrun, hlog, -⟩
  have hopens : OpensRequest (overwrite s.tunnel.clientBuf.bytes 0 [4, 1, 5]) := by
    simp [OpensRequest, overwrite]
  obtain ⟨clientBuf, -, hstep⟩ :=
    step_request hs.live (show [(4 : UInt8), 1, 5].length ≤ maxSize by simp [maxSize]) hopens
  obtain ⟨u, hu, hrun⟩ := run_cons_eq_ok.mp hrun
  obtain rfl := AbortingRun.ok_unique hstep hu
  exact request_not_forwarded (s := s.received clientBuf) rfl hrun hlog

end Session

end LearnUv.Socks
