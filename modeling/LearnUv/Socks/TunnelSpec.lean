import LearnUv.Socks.Tunnel

/-!
# What the callbacks of the proxy do

Each callback has one specification, for the sessions of tunnels that exist; the results
about whole runs are assembled from these.

`on_client_read` has four branches, and looks only at the front of `client_buf` and at the
status of the tunnel to choose one; `step_clientData` gives them in the order of the source.
What a branch changes is said by the session after it: `received`, `request`, `forward` and
`kept` are these, so that a proof about a read takes the branches apart once, with
`clientData_eq_ok`, and does not look at the callback again.

Both buffers end with the tunnel.  Bytes that are kept for the server are stored from
`server_buf_offset` on with a NUL behind them, and there is room for them exactly up to
`stash_of_fits`; a read from the server is stored from `gap` on, and stays inside the tunnel
exactly up to `Event.Inside`.  Beyond these bounds the callback has stored outside of the
tunnel and does not return, so in a run that returns every event keeps to them
(`inside_of_step`), and the results about runs need no hypothesis about lengths that the
run itself gives.

After the tunnel was freed every event is recorded as a use of freed memory; the
specifications below are for a tunnel that is still there (`step_of_live`).

## Main Definitions

* `received` — a session, after a read has changed `client_buf`
* `Established` — the sessions whose tunnel is connected

## Main Results

* `step_clientData` — the four branches of `on_client_read`
* `step_connected`, `step_connectFailed` — the two branches of `on_server_connect`
* `step_serverData` — a read from the server writes a whole buffer to the client
* `clientData_eq_ok` — what `on_client_read` has done when it returned
* `step_log` — the record of what was done only grows
-/

namespace LearnUv.Socks

/-! ## The record of a session -/

section Log

variable {gap : ℕ} (log log' : List Action) (action : Action)

@[simp] theorem forwarded_append : forwarded (log ++ log') = forwarded log ++ forwarded log' := by
  simp [forwarded]

@[simp] theorem relayed_append : relayed (log ++ log') = relayed log ++ relayed log' := by
  simp [relayed]

@[simp] theorem payload_append : payload (log ++ log') = payload log ++ payload log' := by
  simp [payload]

@[simp] theorem connects_append : connects (log ++ log') = connects log ++ connects log' := by
  simp [connects]

@[simp] theorem replies_append : replies (log ++ log') = replies log ++ replies log' := by
  simp [replies]

@[simp] theorem clientReads_append (events events' : List (Session.Event gap)) :
    clientReads (events ++ events') = clientReads events ++ clientReads events' := by
  simp [clientReads]

/-- The reads of a run are those of its first event and those of the rest. -/
theorem clientReads_cons (event : Session.Event gap) (events : List (Session.Event gap)) :
    clientReads (event :: events) = clientReads [event] ++ clientReads events :=
  clientReads_append [event] events

/-- An event is a read of the client, or brings nothing from it. -/
theorem clientReads_singleton (event : Session.Event gap) :
    clientReads [event] = [] ∨ ∃ data, event = .clientData data := by
  cases event with
  | clientData data => exact Or.inr ⟨data, rfl⟩
  | _ => exact Or.inl rfl

/-- A run of client reads only. -/
@[simp] theorem clientReads_map (reads : List (List UInt8)) :
    clientReads (reads.map (.clientData : _ → Session.Event gap)) = reads := by
  induction reads with
  | nil => rfl
  | cons data reads ih => exact congrArg (List.cons data) ih

/-- What is in `client_buf` at each read depends on the reads before it. -/
theorem clientBuffers_append (base : List UInt8) (reads reads' : List (List UInt8)) :
    clientBuffers base (reads ++ reads') =
      clientBuffers base reads ++ clientBuffers (bufferAfter base reads) reads' := by
  induction reads generalizing base with
  | nil => rfl
  | cons data reads ih => simp [clientBuffers, bufferAfter, ih]

/-- And what is in it in the end on all of them. -/
@[simp] theorem bufferAfter_append (base : List UInt8) (reads reads' : List (List UInt8)) :
    bufferAfter base (reads ++ reads') = bufferAfter (bufferAfter base reads) reads' := by
  simp [bufferAfter]

end Log

/-- The text `sprintf` writes fits into `ip`, which has 16 characters, with its NUL. -/
theorem length_parseAddr_ip (buf : List UInt8) (offset : ℕ) :
    (parseAddr buf offset).ip.length + 1 ≤ 16 :=
  Nat.succ_le_succ (DottedQuad.length_render_le _)

namespace Session

variable {gap : ℕ}

/-- The session after a read has changed `client_buf`. -/
def received (s : Session gap) (clientBuf : CharArray maxSize) : Session gap :=
  { s with tunnel := { s.tunnel with clientBuf } }

/-- The tunnel exists and is connected. -/
structure Established (s : Session gap) : Prop where
  live : s.freed = false
  status : s.tunnel.status = .connectedToServer

/-- As long as the tunnel exists, a step is its callback. -/
theorem step_of_live {s : Session gap} (hlive : s.freed = false) (event : Event gap) :
    s.step event = s.callback event := by
  simp [step, hlive]

/-- Afterwards it is a use of the freed memory, whatever the callback would have done. -/
theorem step_of_freed {s : Session gap} (hfreed : s.freed = true) (event : Event gap) :
    s.step event = .ok (s.record .useAfterFree) := by
  simp [step, hfreed]

/-! ## Reads from the client -/

/-- **A read from the client** is put at the start of `client_buf`.  A request is
answered; the bytes that were read are otherwise forwarded or kept, as the tunnel is
connected or being connected. -/
theorem step_clientData {s : Session gap} (hlive : s.freed = false) {data : List UInt8}
    (hfits : data.length ≤ maxSize) :
    ∃ clientBuf : CharArray maxSize,
      clientBuf.bytes = overwrite s.tunnel.clientBuf.bytes 0 data ∧
      s.step (.clientData data) =
        if OpensRequest (overwrite s.tunnel.clientBuf.bytes 0 data) then
          .ok ((s.received clientBuf).request (overwrite s.tunnel.clientBuf.bytes 0 data))
        else if s.tunnel.status = .connectedToServer then
          .ok ((s.received clientBuf).forward data)
        else if s.tunnel.status = .connectingToServer then (s.received clientBuf).stash data
        else .ok ((s.received clientBuf).record .unexpectedStatus) := by
  have hroom : allocBufferClient.offset + data.length ≤ maxSize := by
    rwa [allocBufferClient, Nat.zero_add]
  obtain ⟨clientBuf, hstore, hbytes⟩ := s.tunnel.clientBuf.store_of_fits hroom
  refine ⟨clientBuf, hbytes, ?_⟩
  have hread : s.step (.clientData data) = onClientRead (s.received clientBuf) data.length := by
    rw [step_of_live hlive, callback, hstore]
    rfl
  have hbase : (s.received clientBuf).tunnel.clientBuf.bytes =
      overwrite s.tunnel.clientBuf.bytes 0 data := hbytes
  have hnonneg : ¬(data.length : ℤ) < 0 := by omega
  rw [hread, onClientRead, if_neg hnonneg, hbase, Int.toNat_natCast, take_overwrite_zero]
  rfl

/-- The session after bytes have been kept. -/
def kept (s : Session gap) (bytes : List UInt8) (serverBuf : CharArray maxSize) :
    Session gap :=
  { s with
    tunnel := { s.tunnel with
      serverBufOffset := s.tunnel.serverBufOffset + bytes.length, serverBuf }
    log := s.log ++ [.stash bytes] }

/-- What fits is kept in `server_buf`. -/
theorem stash_of_fits (s : Session gap) {bytes : List UInt8}
    (hfits : s.tunnel.serverBufOffset + bytes.length < maxSize) :
    ∃ serverBuf, s.stash bytes = .ok (s.kept bytes serverBuf) := by
  obtain ⟨serverBuf, hstore, -⟩ := s.tunnel.serverBuf.store_of_fits (Nat.le_of_lt hfits)
  have hnul : s.tunnel.serverBufOffset + bytes.length + [(0 : UInt8)].length ≤ maxSize := hfits
  obtain ⟨serverBuf', hstore', -⟩ := serverBuf.store_of_fits hnul
  refine ⟨serverBuf', ?_⟩
  rw [stash, hstore, AbortingRun.ok_bind]
  dsimp only
  rw [hstore']
  rfl

/-- What does not fit, with the NUL behind it, is stored outside `server_buf`. -/
theorem stash_of_not_fits {s : Session gap} {bytes : List UInt8}
    (h : maxSize ≤ s.tunnel.serverBufOffset + bytes.length) :
    s.stash bytes = .error .outOfBounds := by
  rw [stash]
  rcases Nat.lt_or_ge maxSize (s.tunnel.serverBufOffset + bytes.length) with hlong | hfits
  · rw [s.tunnel.serverBuf.store_of_not_fits hlong, AbortingRun.error_bind]
  · obtain ⟨serverBuf, hstore, -⟩ := s.tunnel.serverBuf.store_of_fits hfits
    rw [hstore, AbortingRun.ok_bind]
    dsimp only
    have hnul : maxSize <
        s.tunnel.serverBufOffset + bytes.length + [(0 : UInt8)].length := Nat.lt_succ_of_le h
    rw [serverBuf.store_of_not_fits hnul, AbortingRun.error_bind]

/-- A `stash` that returned has kept its bytes, and there was room for the NUL. -/
theorem stash_eq_ok {s t : Session gap} {bytes : List UInt8} (h : s.stash bytes = .ok t) :
    s.tunnel.serverBufOffset + bytes.length < maxSize ∧
      ∃ serverBuf, t = s.kept bytes serverBuf := by
  rcases Nat.lt_or_ge (s.tunnel.serverBufOffset + bytes.length) maxSize with hfits | hlong
  · obtain ⟨serverBuf, hstash⟩ := s.stash_of_fits hfits
    rw [hstash] at h
    cases h
    exact ⟨hfits, serverBuf, rfl⟩
  · rw [stash_of_not_fits hlong] at h
    cases h

/-- **What a read from the client has done**, when the callback returned. -/
theorem clientData_eq_ok {s t : Session gap} (hlive : s.freed = false) {data : List UInt8}
    (h : s.step (.clientData data) = .ok t) :
    ∃ clientBuf : CharArray maxSize,
      clientBuf.bytes = overwrite s.tunnel.clientBuf.bytes 0 data ∧
      ((OpensRequest clientBuf.bytes ∧ t = (s.received clientBuf).request clientBuf.bytes) ∨
      ¬OpensRequest clientBuf.bytes ∧
        ((s.tunnel.status = .connectedToServer ∧ t = (s.received clientBuf).forward data) ∨
        (s.tunnel.status = .connectingToServer ∧
          s.tunnel.serverBufOffset + data.length < maxSize ∧
          ∃ serverBuf, t = (s.received clientBuf).kept data serverBuf) ∨
        (s.tunnel.status ≠ .connectedToServer ∧ s.tunnel.status ≠ .connectingToServer ∧
          t = (s.received clientBuf).record .unexpectedStatus))) := by
  have hfits : data.length ≤ maxSize := by
    by_contra hlong
    have hstore : s.tunnel.clientBuf.store allocBufferClient.offset data = .error .outOfBounds :=
      s.tunnel.clientBuf.store_of_not_fits (show maxSize < 0 + data.length by omega)
    rw [step_of_live hlive, callback, hstore] at h
    cases h
  obtain ⟨clientBuf, hbytes, hstep⟩ := step_clientData hlive hfits
  refine ⟨clientBuf, hbytes, ?_⟩
  rw [hstep, ← hbytes] at h
  split at h
  · next hopens =>
      cases h
      exact Or.inl ⟨hopens, rfl⟩
  · next hopens =>
      refine Or.inr ⟨hopens, ?_⟩
      split at h
      · next hconnected =>
          cases h
          exact Or.inl ⟨hconnected, rfl⟩
      · next hconnected =>
          split at h
          · next hconnecting =>
              exact Or.inr (Or.inl ⟨hconnecting, stash_eq_ok h⟩)
          · next hconnecting =>
              cases h
              exact Or.inr (Or.inr ⟨hconnected, hconnecting, rfl⟩)

/-- The end of the client stream is only noted by libuv. -/
theorem step_clientEnd {s : Session gap} (hlive : s.freed = false) (nread : ReadError) :
    s.step (.clientEnd nread) = .ok { s with clientReading := false } := by
  rw [step_of_live hlive, callback, onClientRead, if_pos nread.property]

/-! ## The connect, and reads from the server -/

/-- The connect has failed. -/
def Event.Fails : Event gap → Prop
  | .connectDone _ status => status < 0
  | _ => False

/-- **A connect that succeeds** makes the tunnel connected, and starts the reads. -/
theorem step_connected {s : Session gap} (hlive : s.freed = false)
    (dest : Option SockAddrIn) {status : ℤ} (hstatus : ¬status < 0) :
    s.step (.connectDone dest status) = .ok { s with
      tunnel := { s.tunnel with status := .connectedToServer }
      serverReading := true
      connecting := s.connecting.erase dest
      log := s.log ++ [.connectDone dest status] ++ [.readStart .server] } := by
  rw [step_of_live hlive, callback, onServerConnect, if_neg hstatus]

/-- **A connect that fails** frees the tunnel. -/
theorem step_connectFailed {s : Session gap} (hlive : s.freed = false)
    (dest : Option SockAddrIn) {status : ℤ} (hstatus : status < 0) :
    s.step (.connectDone dest status) = .ok { s with
      freed := true
      connecting := s.connecting.erase dest
      log := s.log ++ [.connectDone dest status] ++ [.free] } := by
  rw [step_of_live hlive, callback, onServerConnect, if_pos hstatus]
  rfl

/-- The end of the connect request never stores anything. -/
theorem step_connectDone_returns {s : Session gap} (hlive : s.freed = false)
    (dest : Option SockAddrIn) (status : ℤ) : ∃ t, s.step (.connectDone dest status) = .ok t := by
  rw [step_of_live hlive, callback]
  exact ⟨_, rfl⟩

/-- What the callback stores stays inside the tunnel: a read of the server is stored in
`server_buf` from `gap` on. -/
def Event.Inside : Event gap → Prop
  | .serverData data _ => gap + data.length ≤ maxSize
  | _ => True

/-- **A read from the server** is put into the buffer, and the whole buffer is written to
the client: what was read, what `server_buf` held behind it, and what lies behind the
tunnel. -/
theorem step_serverData {s : Session gap} (hlive : s.freed = false) {data : List UInt8}
    (behind : CharArray gap) (hinside : gap + data.length ≤ maxSize) :
    ∃ serverBuf : CharArray maxSize, ∃ stale : List UInt8,
      data.length + stale.length + gap = maxSize ∧
      s.step (.serverData data behind) =
        .ok (record { s with tunnel := { s.tunnel with serverBuf } }
          (.relay (data ++ stale ++ behind.bytes))) := by
  have hmemory : s.tunnel.serverBuf.bytes.length = maxSize := s.tunnel.serverBuf.length_eq
  have hbehind : behind.bytes.length = gap := behind.length_eq
  have hroom : (allocBufferServer gap).offset + data.length ≤ maxSize := hinside
  obtain ⟨serverBuf, hstore, hbytes⟩ := s.tunnel.serverBuf.store_of_fits hroom
  have hstale : (s.tunnel.serverBuf.bytes.drop (gap + data.length)).length =
      maxSize - (gap + data.length) := by
    rw [List.length_drop, hmemory]
  refine ⟨serverBuf, s.tunnel.serverBuf.bytes.drop (gap + data.length), by omega, ?_⟩
  have hread : (allocBufferServer gap).read (serverBuf.bytes ++ behind.bytes) =
      data ++ s.tunnel.serverBuf.bytes.drop (gap + data.length) ++ behind.bytes := by
    have htake : (s.tunnel.serverBuf.bytes.take gap).length = gap := by
      rw [List.length_take, hmemory]
      omega
    have hwhole : (data ++ s.tunnel.serverBuf.bytes.drop (gap + data.length) ++
        behind.bytes).length ≤ maxSize := by
      rw [List.length_append, List.length_append, hstale, hbehind]
      omega
    rw [BufAt.read, hbytes]
    show ((overwrite s.tunnel.serverBuf.bytes gap data ++ behind.bytes).drop gap).take
      maxSize = _
    rw [overwrite, List.append_assoc, List.append_assoc, List.drop_left' htake,
      ← List.append_assoc, List.take_of_length_le hwhole]
  have hnonneg : ¬(data.length : ℤ) < 0 := by omega
  rw [step_of_live hlive, callback]
  dsimp only
  rw [hstore, AbortingRun.ok_bind, AbortingRun.pure_eq_ok, onServerRead, if_neg hnonneg, hread]

/-- A read from the server that does not fit is stored beyond the tunnel. -/
theorem step_serverData_outside {s : Session gap} (hlive : s.freed = false)
    {data : List UInt8} {behind : CharArray gap} (h : maxSize < gap + data.length) :
    s.step (.serverData data behind) = .error .outOfBounds := by
  have hstore : s.tunnel.serverBuf.store (allocBufferServer gap).offset data =
      .error .outOfBounds := s.tunnel.serverBuf.store_of_not_fits h
  rw [step_of_live hlive, callback]
  dsimp only
  rw [hstore, AbortingRun.error_bind]

/-- What a read from the server has done, when the callback returned. -/
theorem serverData_eq_ok {s t : Session gap} (hlive : s.freed = false) {data : List UInt8}
    {behind : CharArray gap} (h : s.step (.serverData data behind) = .ok t) :
    gap + data.length ≤ maxSize ∧ ∃ serverBuf : CharArray maxSize, ∃ stale : List UInt8,
      data.length + stale.length + gap = maxSize ∧
        t = record { s with tunnel := { s.tunnel with serverBuf } }
          (.relay (data ++ stale ++ behind.bytes)) := by
  rcases Nat.lt_or_ge maxSize (gap + data.length) with hlong | hinside
  · rw [step_serverData_outside hlive hlong] at h
    cases h
  · obtain ⟨serverBuf, stale, hlen, hstep⟩ := step_serverData hlive behind hinside
    rw [hstep] at h
    cases h
    exact ⟨hinside, serverBuf, stale, hlen, rfl⟩

/-- A callback that returned has stayed inside the tunnel. -/
theorem inside_of_step {s t : Session gap} (hlive : s.freed = false) {event : Event gap}
    (h : s.step event = .ok t) : event.Inside := by
  cases event with
  | serverData data behind => exact (serverData_eq_ok hlive h).1
  | _ => trivial

/-- The end of the server stream is only noted by libuv, too. -/
theorem step_serverEnd {s : Session gap} (hlive : s.freed = false) (nread : ReadError) :
    s.step (.serverEnd nread) = .ok { s with serverReading := false } := by
  rw [step_of_live hlive, callback, onServerRead, if_pos nread.property]

/-- The end of a write frees its request and does nothing else. -/
theorem step_clientWriteEnd {s : Session gap} (hlive : s.freed = false) (i : ℕ) :
    s.step (.clientWriteEnd i) = .ok { s with clientWrites := s.clientWrites.eraseIdx i } := by
  rw [step_of_live hlive, callback]

/-! ## The record only grows -/

/-- What `request` does, action by action. -/
theorem request_log (s : Session gap) (base : List UInt8) :
    ∃ rest, (s.request base).log =
        s.log ++ .reply (requestDest base) grantedReply :: rest ∧
      forwarded rest = [] ∧ relayed rest = [] ∧ payload rest = [] ∧ replies rest = [] ∧
        connects rest = [requestDest base] := by
  refine ⟨_, List.append_assoc _ _ _, ?_⟩
  split
  · exact ⟨rfl, rfl, rfl, rfl, rfl⟩
  · exact ⟨rfl, rfl, rfl, rfl, rfl⟩

/-- A request forwards nothing, -/
theorem forwarded_request (s : Session gap) (base : List UInt8) :
    forwarded (s.request base).log = forwarded s.log := by
  obtain ⟨rest, hlog, hrest, -⟩ := s.request_log base
  rw [hlog, forwarded_append]
  show _ ++ ([] ++ forwarded rest) = _
  rw [hrest, List.append_nil, List.append_nil]

/-- nor does it write anything but a reply to the client, -/
theorem payload_request (s : Session gap) (base : List UInt8) :
    payload (s.request base).log = payload s.log := by
  obtain ⟨rest, hlog, -, -, hrest, -⟩ := s.request_log base
  rw [hlog, payload_append]
  show _ ++ ([] ++ payload rest) = _
  rw [hrest, List.append_nil, List.append_nil]

/-- which is the one that grants it; -/
theorem replies_request (s : Session gap) (base : List UInt8) :
    replies (s.request base).log = replies s.log ++ [grantedReply] := by
  obtain ⟨rest, hlog, -, -, -, hrest, -⟩ := s.request_log base
  rw [hlog, replies_append]
  show _ ++ grantedReply :: replies rest = _
  rw [hrest]

/-- and it starts one connect, to the address that the buffer holds. -/
theorem connects_request (s : Session gap) (base : List UInt8) :
    connects (s.request base).log = connects s.log ++ [requestDest base] := by
  obtain ⟨rest, hlog, -, -, -, -, hrest⟩ := s.request_log base
  rw [hlog, connects_append]
  show _ ++ connects rest = _
  rw [hrest]

/-- It uses no freed memory. -/
theorem useAfterFree_mem_request (s : Session gap) (base : List UInt8) :
    .useAfterFree ∈ (s.request base).log ↔ .useAfterFree ∈ s.log := by
  simp [request]

/-- **The log only grows.** -/
theorem step_log {s t : Session gap} {event : Event gap} (h : s.step event = .ok t) :
    s.log <+: t.log := by
  rcases Bool.eq_false_or_eq_true s.freed with hfreed | hlive
  · rw [step_of_freed hfreed] at h
    cases h
    exact List.prefix_append _ _
  · cases event with
    | clientData data =>
        obtain ⟨clientBuf, -, hcases⟩ := clientData_eq_ok hlive h
        rcases hcases with ⟨-, rfl⟩ | ⟨-, ⟨-, rfl⟩ | ⟨-, -, serverBuf, rfl⟩ | ⟨-, -, rfl⟩⟩
        · obtain ⟨rest, hlog, -⟩ := (s.received clientBuf).request_log clientBuf.bytes
          rw [hlog]
          exact List.prefix_append _ _
        · exact List.prefix_append _ _
        · exact List.prefix_append _ _
        · exact List.prefix_append _ _
    | clientEnd nread =>
        rw [step_clientEnd hlive] at h
        cases h
        exact List.prefix_rfl
    | connectDone dest status =>
        by_cases hstatus : status < 0
        · rw [step_connectFailed hlive dest hstatus] at h
          cases h
          rw [List.append_assoc]
          exact List.prefix_append _ _
        · rw [step_connected hlive dest hstatus] at h
          cases h
          rw [List.append_assoc]
          exact List.prefix_append _ _
    | serverData data behind =>
        obtain ⟨-, serverBuf, stale, -, rfl⟩ := serverData_eq_ok hlive h
        exact List.prefix_append _ _
    | serverEnd nread =>
        rw [step_serverEnd hlive] at h
        cases h
        exact List.prefix_rfl
    | clientWriteEnd i =>
        rw [step_clientWriteEnd hlive] at h
        cases h
        exact List.prefix_rfl

/-- What was done stays recorded. -/
theorem run_log {s t : Session gap} {events : List (Event gap)} (h : s.run events = .ok t) :
    s.log <+: t.log := by
  refine AbortingRun.run_induction step (P := fun _ t => s.log <+: t.log) List.prefix_rfl ?_ h
  intro history u event t _ hu hstep
  exact hu.trans (step_log hstep)

/-- A run that returns is a step that returns and a run that returns. -/
theorem run_cons_eq_ok {s t : Session gap} {event : Event gap} {events : List (Event gap)} :
    s.run (event :: events) = .ok t ↔ ∃ u, s.step event = .ok u ∧ u.run events = .ok t := by
  rw [run, AbortingRun.run_cons, AbortingRun.bind_eq_ok]
  rfl

/-- A run that starts with a freed tunnel and does not use it is empty. -/
theorem run_of_freed {s t : Session gap} (hfreed : s.freed = true) {events : List (Event gap)}
    (hrun : s.run events = .ok t) (hunused : .useAfterFree ∉ t.log) : events = [] := by
  cases events with
  | nil => rfl
  | cons event events =>
      obtain ⟨u, hstep, hrun⟩ := run_cons_eq_ok.mp hrun
      rw [step_of_freed hfreed] at hstep
      cases hstep
      refine absurd ((run_log hrun).subset ?_) hunused
      exact List.mem_append_right _ (List.mem_singleton_self _)

end Session

end LearnUv.Socks
