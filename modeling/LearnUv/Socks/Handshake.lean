import LearnUv.Socks.Connecting

/-!
# The handshake

Until a read leaves a request in `client_buf`, a new tunnel does nothing but complain.
From the first such read on, a connect has been started and an answer sent.  The proxy
keeps nothing of a request between two reads, and nothing of what follows it in the same
read, so how the stream is cut decides what it makes of it.

## Main Definitions

* `Waiting` — a session in which no request has been read
* `Asked` — a session in which one has
* `StopsAtFailure` — nothing comes after a connect that failed
* `RequestRead` — the cut of a stream with which the handshake works

## Main Results

* `Waiting.run_quiet` — without a request nothing is started, answered or kept
* `Asked.run_continues`, `Asked.returns_cases` — when what follows a request is treated as
  payload, and what happens otherwise
* `handshake_iff` — which cuts of a stream lead to the right handshake
* `grantedMeansConnected_iff` — when a granted reply means that the connect succeeded
-/

namespace LearnUv.Socks

/-! ## The destination of a request -/

/-- The address and the port in a buffer that begins like a request. -/
def destOf (base : List UInt8) : SockAddrIn :=
  ⟨⟨byteAt base 4, byteAt base 5, byteAt base 6, byteAt base 7⟩,
    UInt16.ofNat (256 * (byteAt base 2).toNat + (byteAt base 3).toNat)⟩

/-- The text of the address is read back as it was written. -/
theorem requestDest_eq (base : List UInt8) : requestDest base = some (destOf base) := by
  have hport : readPort base 2 =
      256 * (byteAt base 2).toNat + (byteAt base 3).toNat := by
    rw [readPort, Nat.shiftLeft_eq, Nat.mul_comm]
  simp [requestDest, uvIp4Addr, parseAddr, hport, destOf]

/-- Two bytes are determined by the port they make. -/
theorem port_inj {high low high' low' : UInt8}
    (h : UInt16.ofNat (256 * high.toNat + low.toNat) =
      UInt16.ofNat (256 * high'.toNat + low'.toNat)) : high = high' ∧ low = low' := by
  have hnat := congrArg UInt16.toNat h
  have hlow := low.toNat_lt
  have hlow' := low'.toNat_lt
  have hhigh := high.toNat_lt
  have hhigh' := high'.toNat_lt
  rw [UInt16.toNat_ofNat', UInt16.toNat_ofNat', Nat.mod_eq_of_lt (by omega),
    Nat.mod_eq_of_lt (by omega)] at hnat
  exact ⟨UInt8.toNat.inj (by omega), UInt8.toNat.inj (by omega)⟩

/-- The buffer has the address and the port of the request. -/
def SameDest (base : List UInt8) (request : ConnectRequest) : Prop :=
  ∀ i, 2 ≤ i → i < 8 → byteAt base i = byteAt request.bytes i

theorem destOf_eq_iff {base : List UInt8} {request : ConnectRequest} :
    destOf base = request.dest ↔ SameDest base request := by
  constructor
  · intro h i hi hi'
    obtain ⟨hhigh, hlow⟩ := port_inj (congrArg SockAddrIn.port h)
    have haddr := congrArg SockAddrIn.addr h
    have ha := congrArg DottedQuad.Quad.a haddr
    have hb := congrArg DottedQuad.Quad.b haddr
    have hc := congrArg DottedQuad.Quad.c haddr
    have hd := congrArg DottedQuad.Quad.d haddr
    obtain rfl | rfl | rfl | rfl | rfl | rfl :
        i = 2 ∨ i = 3 ∨ i = 4 ∨ i = 5 ∨ i = 6 ∨ i = 7 := by omega
    · exact hhigh
    · exact hlow
    · exact ha
    · exact hb
    · exact hc
    · exact hd
  · intro h
    have h2 : byteAt base 2 = request.portHigh := h 2 (by omega) (by omega)
    have h3 : byteAt base 3 = request.portLow := h 3 (by omega) (by omega)
    have h4 : byteAt base 4 = request.addr.a := h 4 (by omega) (by omega)
    have h5 : byteAt base 5 = request.addr.b := h 5 (by omega) (by omega)
    have h6 : byteAt base 6 = request.addr.c := h 6 (by omega) (by omega)
    have h7 : byteAt base 7 = request.addr.d := h 7 (by omega) (by omega)
    rw [destOf, h2, h3, h4, h5, h6, h7]
    rfl

/-! ## The first request of a stream -/

/-- An event leaves no request in the buffer, or it is a read that does. -/
theorem quiet_or_opens {gap : ℕ} (base : List UInt8) (event : Session.Event gap) :
    (∀ base' ∈ clientBuffers base (clientReads [event]), ¬OpensRequest base') ∨
      ∃ data, event = .clientData data ∧ OpensRequest (overwrite base 0 data) := by
  rcases clientReads_singleton event with hnone | ⟨data, rfl⟩
  · rw [hnone]
    exact Or.inl fun _ h => by cases h
  · by_cases hopens : OpensRequest (overwrite base 0 data)
    · exact Or.inr ⟨data, rfl, hopens⟩
    · exact Or.inl (List.forall_mem_singleton.mpr hopens)

/-- No read leaves a request in the buffer, or one of them is the first to do so. -/
theorem exists_first_request {gap : ℕ} (base : List UInt8) (events : List (Session.Event gap)) :
    (∀ base' ∈ clientBuffers base (clientReads events), ¬OpensRequest base') ∨
    ∃ before data after, events = before ++ .clientData data :: after ∧
      (∀ base' ∈ clientBuffers base (clientReads before), ¬OpensRequest base') ∧
      OpensRequest (overwrite (bufferAfter base (clientReads before)) 0 data) := by
  induction events generalizing base with
  | nil => exact Or.inl fun _ h => by cases h
  | cons event events ih =>
      rw [clientReads_cons, clientBuffers_append]
      rcases quiet_or_opens base event with hquiet | ⟨data, rfl, hopens⟩
      · rcases ih (bufferAfter base (clientReads [event])) with
          hrest | ⟨before, data, after, rfl, hbefore, hopens⟩
        · exact Or.inl (List.forall_mem_append.mpr ⟨hquiet, hrest⟩)
        · refine Or.inr ⟨event :: before, data, after, rfl, ?_⟩
          rw [clientReads_cons, clientBuffers_append, bufferAfter_append]
          exact ⟨List.forall_mem_append.mpr ⟨hquiet, hbefore⟩, hopens⟩
      · exact Or.inr ⟨[], data, events, rfl, (fun _ h => by cases h), hopens⟩

/-! ## Before the first request -/

/-- What a tunnel does until it has read a request. -/
def Action.IsIdle : Action → Prop
  | .tcpInit .client => True
  | .readStart .client => True
  | .unexpectedStatus => True
  | _ => False

/-- Nothing was kept, forwarded or answered, no connect was started, and no freed tunnel
used. -/
theorem idle_log {log : List Action} (h : ∀ action ∈ log, action.IsIdle) :
    payload log = [] ∧ connects log = [] ∧ replies log = [] ∧ .useAfterFree ∉ log := by
  induction log with
  | nil => exact ⟨rfl, rfl, rfl, List.not_mem_nil⟩
  | cons action log ih =>
      obtain ⟨hidle, hrest⟩ := List.forall_mem_cons.mp h
      cases action with
      | tcpInit _ | readStart _ | unexpectedStatus =>
          obtain ⟨hpayload, hconnects, hreplies, hunused⟩ := ih hrest
          exact ⟨hpayload, hconnects, hreplies, by simpa using hunused⟩
      | _ => cases hidle

namespace Session

variable {gap : ℕ}

/-- No request has been read. -/
structure Waiting (s : Session gap) : Prop where
  live : s.freed = false
  status : s.tunnel.status = .tunnelStart
  serverReading : s.serverReading = false
  connecting : s.connecting = []
  clientWrites : s.clientWrites = []
  log : ∀ action ∈ s.log, action.IsIdle

theorem waiting_accept (memory : Tunnel gap) : (accept memory).Waiting where
  live := rfl
  status := rfl
  serverReading := rfl
  connecting := rfl
  clientWrites := rfl
  log := by
    intro action haction
    rcases List.mem_pair.mp haction with rfl | rfl
    · trivial
    · trivial

namespace Waiting

variable {s : Session gap}

/-- An event that leaves no request in `client_buf`. -/
theorem step_quiet (hs : s.Waiting) {event : Event gap} (henabled : s.Enabled event)
    (hquiet : ∀ base ∈ clientBuffers s.tunnel.clientBuf.bytes (clientReads [event]),
      ¬OpensRequest base) :
    ∃ t, s.step event = .ok t ∧ t.Waiting ∧
      t.tunnel.clientBuf.bytes = bufferAfter s.tunnel.clientBuf.bytes (clientReads [event]) ∧
      t.tunnel.serverBufOffset = s.tunnel.serverBufOffset := by
  cases event with
  | clientData data =>
      obtain ⟨clientBuf, hbytes, hstep⟩ := step_clientData hs.live henabled.2
      have hbase : ¬OpensRequest (overwrite s.tunnel.clientBuf.bytes 0 data) :=
        hquiet _ List.mem_cons_self
      rw [if_neg hbase, if_neg (by simp [hs.status]), if_neg (by simp [hs.status])] at hstep
      refine ⟨_, hstep, ⟨hs.live, hs.status, hs.serverReading, hs.connecting,
        hs.clientWrites, ?_⟩, hbytes, rfl⟩
      intro action haction
      rcases List.mem_append.mp haction with h | h
      · exact hs.log action h
      · rw [List.mem_singleton.mp h]
        trivial
  | clientEnd nread =>
      exact ⟨_, step_clientEnd hs.live nread, ⟨hs.live, hs.status, hs.serverReading,
        hs.connecting, hs.clientWrites, hs.log⟩, rfl, rfl⟩
  | connectDone dest status =>
      have hmem : dest ∈ s.connecting := henabled
      rw [hs.connecting] at hmem
      cases hmem
  | serverData data behind =>
      have hreading := henabled.1
      rw [hs.serverReading] at hreading
      cases hreading
  | serverEnd nread =>
      have hreading : s.serverReading = true := henabled
      rw [hs.serverReading] at hreading
      cases hreading
  | clientWriteEnd i =>
      have hlt : i < s.clientWrites.length := henabled
      rw [hs.clientWrites] at hlt
      cases hlt

/-- **Without a request nothing happens.** -/
theorem run_quiet (hs : s.Waiting) {events : List (Event gap)} (hdelivered : s.Delivered events)
    (hquiet : ∀ base ∈ clientBuffers s.tunnel.clientBuf.bytes (clientReads events),
      ¬OpensRequest base) :
    ∃ t, s.run events = .ok t ∧ t.Waiting ∧
      t.tunnel.clientBuf.bytes = bufferAfter s.tunnel.clientBuf.bytes (clientReads events) ∧
      t.tunnel.serverBufOffset = s.tunnel.serverBufOffset := by
  induction events generalizing s with
  | nil => exact ⟨s, rfl, hs, rfl, rfl⟩
  | cons event events ih =>
      obtain ⟨henabled, hdelivered⟩ := hdelivered
      rw [clientReads_cons, clientBuffers_append, List.forall_mem_append] at hquiet
      obtain ⟨u, hstep, hu, hbytes, hoffset⟩ := hs.step_quiet henabled hquiet.1
      obtain ⟨t, hrun, ht, hbytes', hoffset'⟩ :=
        ih hu (hdelivered u hstep) (by rw [hbytes]; exact hquiet.2)
      refine ⟨t, run_cons_eq_ok.mpr ⟨u, hstep, hrun⟩, ht, ?_, hoffset'.trans hoffset⟩
      rw [clientReads_cons, bufferAfter_append, hbytes', hbytes]

end Waiting

/-! ## After the first request -/

/-- Nothing comes after a connect that failed. -/
def StopsAtFailure : List (Event gap) → Prop
  | [] => True
  | event :: events => (event.Fails → events = []) ∧ StopsAtFailure events

/-- A request has been read. -/
structure Asked (s : Session gap) : Prop where
  live : s.freed = false
  status : s.tunnel.status = .connectingToServer ∨ s.tunnel.status = .connectedToServer

/-- What the client sends before the connect is done fits into `server_buf`, with a NUL,
from the offset on. -/
def StashFits : ℕ → List (Event gap) → Prop
  | _, [] => True
  | offset, .clientData data :: events =>
      offset + data.length < maxSize ∧ StashFits (offset + data.length) events
  | _, .connectDone _ _ :: _ => True
  | offset, _ :: events => StashFits offset events

/-- What comes before the connect is done fits. -/
def Fits (s : Session gap) (events : List (Event gap)) : Prop :=
  s.tunnel.status = .connectingToServer → StashFits s.tunnel.serverBufOffset events

/-- `t` has started the connects and sent the replies of `s`, and has treated some more
bytes as payload; a freed tunnel was not used. -/
structure Continues (s t : Session gap) (bytes : List UInt8) : Prop where
  connects : connects t.log = connects s.log
  replies : replies t.log = replies s.log
  payload : payload t.log = payload s.log ++ bytes
  unused : .useAfterFree ∉ s.log → .useAfterFree ∉ t.log

theorem Continues.of_log_eq {s t : Session gap} (h : t.log = s.log) : s.Continues t [] where
  connects := by rw [h]
  replies := by rw [h]
  payload := by rw [h, List.append_nil]
  unused := by rw [h]; exact id

theorem Continues.trans {s t u : Session gap} {bytes bytes' : List UInt8}
    (h : s.Continues t bytes) (h' : t.Continues u bytes') :
    s.Continues u (bytes ++ bytes') where
  connects := h'.connects.trans h.connects
  replies := h'.replies.trans h.replies
  payload := by rw [h'.payload, h.payload, List.append_assoc]
  unused := fun hs => h'.unused (h.unused hs)

namespace Asked

variable {s : Session gap}

theorem request {s : Session gap} (hlive : s.freed = false) (base : List UInt8) :
    (s.request base).Asked := ⟨hlive, Or.inl rfl⟩

/-- A read that leaves no request in `client_buf` is treated as payload, if it fits. -/
theorem step_data (hs : s.Asked) {data : List UInt8} (hfits : data.length ≤ maxSize)
    (hbase : ¬OpensRequest (overwrite s.tunnel.clientBuf.bytes 0 data)) (events : List (Event gap)) :
    (∃ t, s.step (.clientData data) = .ok t ∧ t.Asked ∧ s.Continues t data ∧
      t.tunnel.clientBuf.bytes = overwrite s.tunnel.clientBuf.bytes 0 data ∧
      (t.Fits events ↔ s.Fits (.clientData data :: events))) ∨
    (s.step (.clientData data) = .error .outOfBounds ∧ ¬s.Fits (.clientData data :: events)) := by
  obtain ⟨clientBuf, hbytes, hstep⟩ := step_clientData hs.live hfits
  rw [if_neg hbase] at hstep
  rcases hs.status with hconnecting | hconnected
  · rw [if_neg (by simp [hconnecting]), if_pos hconnecting] at hstep
    rcases Nat.lt_or_ge (s.tunnel.serverBufOffset + data.length) maxSize with hroom | hlong
    · obtain ⟨serverBuf, hstash⟩ := (s.received clientBuf).stash_of_fits hroom
      rw [hstash] at hstep
      refine Or.inl ⟨_, hstep, ⟨hs.live, Or.inl hconnecting⟩, ?_, hbytes, ?_⟩
      · constructor <;> simp [kept, received, connects, replies, payload]
      · constructor
        · intro h _
          exact ⟨hroom, h hconnecting⟩
        · intro h _
          exact (h hconnecting).2
    · rw [stash_of_not_fits (s := s.received clientBuf) hlong] at hstep
      refine Or.inr ⟨hstep, fun h => ?_⟩
      exact absurd (h hconnecting).1 (Nat.not_lt.mpr hlong)
  · rw [if_pos hconnected] at hstep
    refine Or.inl ⟨_, hstep, ⟨hs.live, Or.inr hconnected⟩, ?_, hbytes, ?_⟩
    · constructor <;> simp [Session.forward, received, connects, replies, payload]
    · have hne : s.tunnel.status ≠ .connectingToServer := by simp [hconnected]
      exact ⟨fun _ h => absurd h hne, fun _ h => absurd h hne⟩

/-- An event that is neither a read of the client nor a connect that failed, nor a read of
the server that overruns the tunnel. -/
theorem step_other (hs : s.Asked) {event : Event gap} (hinside : event.Inside)
    (hevent : ¬event.Fails) (hother : clientReads [event] = []) (events : List (Event gap)) :
    ∃ t, s.step event = .ok t ∧ t.Asked ∧ s.Continues t [] ∧
      t.tunnel.clientBuf = s.tunnel.clientBuf ∧
      (t.Fits events ↔ s.Fits (event :: events)) := by
  cases event with
  | clientData data => cases hother
  | clientEnd nread =>
      exact ⟨_, step_clientEnd hs.live nread, ⟨hs.live, hs.status⟩, .of_log_eq rfl, rfl, Iff.rfl⟩
  | connectDone dest status =>
      refine ⟨_, step_connected hs.live dest hevent, ⟨hs.live, Or.inr rfl⟩, ?_, rfl, ?_⟩
      · constructor <;> simp [connects, replies, payload]
      · refine ⟨fun _ _ => trivial, fun _ h => ?_⟩
        cases h
  | serverData data behind =>
      obtain ⟨serverBuf, stale, -, hstep⟩ := step_serverData hs.live behind hinside
      refine ⟨_, hstep, ⟨hs.live, hs.status⟩, ?_, rfl, Iff.rfl⟩
      constructor <;> simp [record, connects, replies, payload]
  | serverEnd nread =>
      exact ⟨_, step_serverEnd hs.live nread, ⟨hs.live, hs.status⟩, .of_log_eq rfl, rfl, Iff.rfl⟩
  | clientWriteEnd i =>
      exact ⟨_, step_clientWriteEnd hs.live i, ⟨hs.live, hs.status⟩, .of_log_eq rfl, rfl, Iff.rfl⟩

/-- A connect that fails frees the tunnel. -/
theorem step_fails (hs : s.Asked) {event : Event gap} (hevent : event.Fails)
    (events : List (Event gap)) :
    ∃ t, s.step event = .ok t ∧ t.freed = true ∧ s.Continues t [] ∧
      clientReads [event] = [] ∧ s.Fits (event :: events) ∧ event.Inside := by
  cases event with
  | connectDone dest status =>
      refine ⟨_, step_connectFailed hs.live dest hevent, rfl, ?_, rfl, fun _ => trivial, trivial⟩
      constructor <;> simp [connects, replies, payload]
  | clientData data => cases hevent
  | clientEnd nread => cases hevent
  | serverData data behind => cases hevent
  | serverEnd nread => cases hevent
  | clientWriteEnd i => cases hevent

/-- What follows a request is treated as payload, if no read leaves another request in
`client_buf`, what comes before the connect fits, no read of the server overruns the
tunnel, and nothing comes after a connect that fails. -/
theorem run_continues (hs : s.Asked) {events : List (Event gap)}
    (hdelivered : s.Delivered events) (hstops : StopsAtFailure events)
    (hinside : ∀ event ∈ events, event.Inside)
    (hquiet : ∀ base ∈ clientBuffers s.tunnel.clientBuf.bytes (clientReads events),
      ¬OpensRequest base) (hfits : s.Fits events) :
    ∃ t, s.run events = .ok t ∧ s.Continues t (clientReads events).flatten := by
  induction events generalizing s with
  | nil => exact ⟨s, rfl, .of_log_eq rfl⟩
  | cons event events ih =>
      obtain ⟨henabled, hdelivered⟩ := hdelivered
      obtain ⟨hlast, hstops⟩ := hstops
      obtain ⟨hinside, hrest⟩ := List.forall_mem_cons.mp hinside
      by_cases hevent : event.Fails
      · obtain ⟨t, hstep, -, hcont, hreads, -⟩ := hs.step_fails hevent events
        rw [hlast hevent, hreads]
        exact ⟨t, run_cons_eq_ok.mpr ⟨t, hstep, rfl⟩, hcont⟩
      rw [clientReads_cons, clientBuffers_append, List.forall_mem_append] at hquiet
      have hnext : ∃ u, s.step event = .ok u ∧ u.Asked ∧
          s.Continues u (clientReads [event]).flatten ∧
          u.tunnel.clientBuf.bytes = bufferAfter s.tunnel.clientBuf.bytes (clientReads [event]) ∧
          u.Fits events := by
        rcases clientReads_singleton event with hother | ⟨data, rfl⟩
        · obtain ⟨u, hstep, hu, hcont, hbuf, hiff⟩ :=
            hs.step_other hinside hevent hother events
          rw [hother]
          exact ⟨u, hstep, hu, hcont, congrArg CharArray.bytes hbuf, hiff.mpr hfits⟩
        · rcases hs.step_data henabled.2 (hquiet.1 _ List.mem_cons_self) events with
            ⟨u, hstep, hu, hcont, hbuf, hiff⟩ | ⟨-, hnot⟩
          · exact ⟨u, hstep, hu, by simpa [clientReads] using hcont, hbuf, hiff.mpr hfits⟩
          · exact absurd hfits hnot
      obtain ⟨u, hstep, hu, hcont, hbuf, hfits⟩ := hnext
      obtain ⟨t, hrun, hcont'⟩ :=
        ih hu (hdelivered u hstep) hstops hrest (by rw [hbuf]; exact hquiet.2) hfits
      refine ⟨t, run_cons_eq_ok.mpr ⟨u, hstep, hrun⟩, ?_⟩
      rw [clientReads_cons, List.flatten_append]
      exact hcont.trans hcont'

/-- Otherwise the run does not return, a freed tunnel is used, or another connect is
started. -/
theorem returns_cases (hs : s.Asked) {t : Session gap} {events : List (Event gap)}
    (hdelivered : s.Delivered events) (hrun : s.run events = .ok t)
    (hunused : .useAfterFree ∉ t.log) :
    ((∀ base ∈ clientBuffers s.tunnel.clientBuf.bytes (clientReads events),
        ¬OpensRequest base) ∧ s.Fits events ∧ StopsAtFailure events ∧
          ∀ event ∈ events, event.Inside) ∨
      (connects s.log).length < (connects t.log).length := by
  induction events generalizing s with
  | nil =>
      exact Or.inl ⟨fun _ h => (by cases h), fun _ => trivial, trivial, List.forall_mem_nil _⟩
  | cons event events ih =>
      obtain ⟨henabled, hdelivered⟩ := hdelivered
      obtain ⟨u, hstep, htail⟩ := run_cons_eq_ok.mp hrun
      by_cases hevent : event.Fails
      · obtain ⟨u', hstep', hfreed, -, hreads, hfits, hinside⟩ := hs.step_fails hevent events
        obtain rfl := AbortingRun.ok_unique hstep hstep'
        obtain rfl := run_of_freed hfreed htail hunused
        rw [hreads]
        exact Or.inl ⟨fun _ h => (by cases h), hfits, ⟨fun _ => rfl, trivial⟩,
          List.forall_mem_singleton.mpr hinside⟩
      rw [clientReads_cons, clientBuffers_append, List.forall_mem_append]
      have hinside := inside_of_step hs.live hstep
      rcases clientReads_singleton event with hother | ⟨data, rfl⟩
      · obtain ⟨u', hstep', hu, hcont, hbuf, hiff⟩ :=
          hs.step_other hinside hevent hother events
        obtain rfl := AbortingRun.ok_unique hstep hstep'
        rcases ih hu (hdelivered u hstep) htail with ⟨hquiet, hfits, hstops, hrest⟩ | hlt
        · rw [hbuf] at hquiet
          rw [hother]
          exact Or.inl ⟨⟨fun _ h => (by cases h), hquiet⟩, hiff.mp hfits,
            ⟨fun h => absurd h hevent, hstops⟩, List.forall_mem_cons.mpr ⟨hinside, hrest⟩⟩
        · exact Or.inr (by rwa [hcont.connects] at hlt)
      · by_cases hbase : OpensRequest (overwrite s.tunnel.clientBuf.bytes 0 data)
        · obtain ⟨clientBuf, -, hstep'⟩ := step_request hs.live henabled.2 hbase
          obtain rfl := AbortingRun.ok_unique hstep hstep'
          obtain ⟨later, hlater⟩ := run_log htail
          have hbefore : connects (s.received clientBuf).log = connects s.log := rfl
          rw [← hlater, connects_append, connects_request, hbefore]
          refine Or.inr ?_
          simp only [List.length_append, List.length_singleton]
          omega
        · rcases hs.step_data henabled.2 hbase events with
            ⟨u', hstep', hu, hcont, hbuf, hiff⟩ | ⟨herr, -⟩
          · obtain rfl := AbortingRun.ok_unique hstep hstep'
            rcases ih hu (hdelivered u hstep) htail with ⟨hquiet, hfits, hstops, hrest⟩ | hlt
            · rw [hbuf] at hquiet
              refine Or.inl ⟨⟨?_, hquiet⟩, hiff.mp hfits, ⟨fun h => absurd h hevent, hstops⟩,
                List.forall_mem_cons.mpr ⟨hinside, hrest⟩⟩
              intro base hmem
              rw [List.mem_singleton.mp hmem]
              exact hbase
            · exact Or.inr (by rwa [hcont.connects] at hlt)
          · rw [hstep] at herr
            cases herr

end Asked

/-! ## The cut of the stream -/

/-- The read `data` leaves the first request in `client_buf`, in the session described. -/
theorem accept_asked {memory : Tunnel gap} {before after : List (Event gap)} {data : List UInt8}
    (hdelivered : (accept memory).Delivered (before ++ .clientData data :: after))
    (hfirst : ∀ base ∈ clientBuffers memory.clientBuf.bytes (clientReads before),
      ¬OpensRequest base)
    (hopens : OpensRequest (overwrite (bufferAfter memory.clientBuf.bytes
      (clientReads before)) 0 data)) :
    ∃ u : Session gap,
      (∀ t, (accept memory).run (before ++ .clientData data :: after) = .ok t ↔
        u.run after = .ok t) ∧
      u.Asked ∧ u.Delivered after ∧
      u.tunnel.clientBuf.bytes =
        overwrite (bufferAfter memory.clientBuf.bytes (clientReads before)) 0 data ∧
      (u.Fits after ↔ StashFits memory.serverBufOffset after) ∧
      connects u.log = [some (destOf u.tunnel.clientBuf.bytes)] ∧
      replies u.log = [grantedReply] ∧ payload u.log = [] ∧ .useAfterFree ∉ u.log := by
  obtain ⟨hbefore, hrest⟩ := AbortingRun.eachStep_append.mp hdelivered
  obtain ⟨w, hw, hwait, hbuf, hoffset⟩ :=
    (waiting_accept memory).run_quiet hbefore hfirst
  obtain ⟨henabled, hafter⟩ := hrest w hw
  have hbuf' : w.tunnel.clientBuf.bytes =
      bufferAfter memory.clientBuf.bytes (clientReads before) := hbuf
  rw [← hbuf'] at hopens ⊢
  obtain ⟨clientBuf, hbytes, hstep⟩ := step_request hwait.live henabled.2 hopens
  obtain ⟨hpayload, hconnects, hreplies, hunused⟩ := idle_log hwait.log
  refine ⟨_, ?_, .request (s := w.received clientBuf) hwait.live clientBuf.bytes,
    hafter _ hstep, hbytes, ?_, ?_, ?_, ?_, ?_⟩
  · intro t
    rw [run, AbortingRun.run_append_eq_ok]
    constructor
    · rintro ⟨w', hw', hrun⟩
      have hsame := hw.symm.trans hw'
      cases hsame
      obtain ⟨u, hu, hrun⟩ := run_cons_eq_ok.mp hrun
      obtain rfl := AbortingRun.ok_unique hstep hu
      exact hrun
    · intro hrun
      exact ⟨w, hw, run_cons_eq_ok.mpr ⟨_, hstep, hrun⟩⟩
  · have hoffset' : w.tunnel.serverBufOffset = memory.serverBufOffset := hoffset
    rw [← hoffset']
    exact ⟨fun h => h rfl, fun h _ => h⟩
  · have hnone : connects (w.received clientBuf).log = [] := hconnects
    rw [connects_request, hnone, requestDest_eq]
    rfl
  · have hnone : replies (w.received clientBuf).log = [] := hreplies
    rw [replies_request, hnone]
    rfl
  · rw [payload_request]
    exact hpayload
  · rw [useAfterFree_mem_request]
    exact hunused

/-- The read `data` is the one that leaves the request, all of it and nothing more, in
`client_buf`; no other read leaves one there; what comes before the connect fits; nothing
comes after it when it fails; and no read of the server overruns the tunnel. -/
structure RequestRead (memory : Tunnel gap) (request : ConnectRequest)
    (before : List (Event gap)) (data : List UInt8) (after : List (Event gap)) : Prop where
  whole : (clientReads before).flatten ++ data = request.bytes
  first : ∀ base ∈ clientBuffers memory.clientBuf.bytes (clientReads before),
    ¬OpensRequest base
  opens : OpensRequest
    (overwrite (bufferAfter memory.clientBuf.bytes (clientReads before)) 0 data)
  dest : SameDest
    (overwrite (bufferAfter memory.clientBuf.bytes (clientReads before)) 0 data) request
  last : ∀ base ∈ clientBuffers
      (overwrite (bufferAfter memory.clientBuf.bytes (clientReads before)) 0 data)
      (clientReads after), ¬OpensRequest base
  fits : StashFits memory.serverBufOffset after
  stops : StopsAtFailure after
  inside : ∀ event ∈ after, event.Inside

/-- What was done for a stream of a request and `rest`: one connect, to what the request
names, and one reply; `rest` was treated as payload; and no freed tunnel was used. -/
structure Served (request : ConnectRequest) (rest : List UInt8) (log : List Action) :
    Prop where
  connects : connects log = [some request.dest]
  replies : (replies log).length = 1
  payload : payload log = rest
  unused : .useAfterFree ∉ log

/-- **The handshake depends on how the stream is cut.**  A stream that begins with a
request is served exactly when one read ends the request and leaves it in `client_buf`, and
no other read leaves one there: in particular when the first read is the request, and no
later one begins with the bytes 4, 1.  Reads of the server have to stay inside the tunnel
besides. -/
theorem handshake_iff {memory : Tunnel gap} {request : ConnectRequest} {rest : List UInt8}
    {history : List (Event gap)} (hdelivered : (accept memory).Delivered history)
    (hstream : (clientReads history).flatten = request.bytes ++ rest) :
    (∃ t, (accept memory).run history = .ok t ∧ Served request rest t.log) ↔
      ∃ before data after, history = before ++ .clientData data :: after ∧
        RequestRead memory request before data after := by
  have hcut : ∀ {before data after}, history = before ++ .clientData data :: after →
      (clientReads before).flatten ++ data ++ (clientReads after).flatten =
        request.bytes ++ rest := by
    intro before data after hsplit
    rw [← hstream, hsplit, clientReads_append, List.flatten_append, List.append_assoc]
    rfl
  constructor
  · rintro ⟨t, hrun, hserved⟩
    have hconnects := hserved.connects
    rcases exists_first_request memory.clientBuf.bytes history with
      hquiet | ⟨before, data, after, hsplit, hfirst, hopens⟩
    · -- without a request no connect is started
      obtain ⟨t', hrun', hwait, -⟩ := (waiting_accept memory).run_quiet hdelivered hquiet
      obtain rfl := AbortingRun.ok_unique hrun hrun'
      rw [(idle_log hwait.log).2.1] at hconnects
      cases hconnects
    · refine ⟨before, data, after, hsplit, ?_⟩
      rw [hsplit] at hdelivered hrun
      obtain ⟨u, hiff, hu, hdel, hbuf, hfits, hconn, -, hnone, -⟩ :=
        accept_asked hdelivered hfirst hopens
      have htail := (hiff t).mp hrun
      rcases hu.returns_cases hdel htail hserved.unused with
        ⟨hlast, hroom, hstops, hinside⟩ | hlt
      · obtain ⟨t', htail', hcont⟩ := hu.run_continues hdel hstops hinside hlast hroom
        obtain rfl := AbortingRun.ok_unique htail htail'
        have hpayload := hserved.payload
        rw [hcont.payload, hnone, List.nil_append] at hpayload
        have hdest : destOf u.tunnel.clientBuf.bytes = request.dest := by
          rw [hcont.connects, hconn] at hconnects
          exact Option.some.inj (List.cons.inj hconnects).1
        have hwhole := hcut hsplit
        rw [hpayload] at hwhole
        rw [hbuf] at hlast hdest
        exact
          { whole := List.append_cancel_right hwhole
            first := hfirst
            opens := hopens
            dest := destOf_eq_iff.mp hdest
            last := hlast
            fits := hfits.mp hroom
            stops := hstops
            inside := hinside }
      · rw [hconn, hconnects] at hlt
        exact absurd hlt (Nat.lt_irrefl _)
  · rintro ⟨before, data, after, hsplit, hread⟩
    have hrest := hcut hsplit
    rw [hread.whole] at hrest
    rw [hsplit] at hdelivered ⊢
    obtain ⟨u, hiff, hu, hdel, hbuf, hfits, hconn, hreply, hnone, hunused⟩ :=
      accept_asked hdelivered hread.first hread.opens
    obtain ⟨t, htail, hcont⟩ := hu.run_continues hdel hread.stops hread.inside
      (by rw [hbuf]; exact hread.last) (hfits.mpr hread.fits)
    refine ⟨t, (hiff t).mpr htail, ?_⟩
    exact
      { connects := by rw [hcont.connects, hconn, hbuf, destOf_eq_iff.mpr hread.dest]
        replies := by rw [hcont.replies, hreply]; rfl
        payload := by
          rw [hcont.payload, hnone, List.nil_append]
          exact List.append_cancel_left hrest
        unused := hcont.unused hunused }

/-- The request comes in one read; a byte of payload follows. -/
def separate : List (Event 248) :=
  [.clientData plainRequest.bytes, .connectDone localDest 0, .clientData [72]]

theorem handshake_iff_separate :
    (∃ t, (accept zeroTunnel).run separate = .ok t ∧ Served plainRequest [72] t.log) ↔
      ∃ before data after, separate = before ++ .clientData data :: after ∧
        RequestRead zeroTunnel plainRequest before data after :=
  handshake_iff (delivered_of_runEvents (by decide +kernel)) rfl

/-- The byte of payload comes in the read of the request, and is lost. -/
theorem not_handshake_glued :
    (accept zeroTunnel).Delivered [.clientData (plainRequest.bytes ++ [72])] ∧
      (clientReads [(.clientData (plainRequest.bytes ++ [72]) : Event 248)]).flatten =
        plainRequest.bytes ++ [72] ∧
      ¬∃ t, (accept zeroTunnel).run [.clientData (plainRequest.bytes ++ [72])] = .ok t ∧
        Served plainRequest [72] t.log := by
  refine ⟨delivered_of_runEvents (by decide +kernel), rfl, ?_⟩
  rintro ⟨t, hrun, hserved⟩
  have hnone : ((accept zeroTunnel).run [.clientData (plainRequest.bytes ++ [72])]).map
      (fun t => payload t.log) = .ok [] := by decide +kernel
  rw [hrun] at hnone
  cases hserved.payload.symm.trans (Except.ok.inj hnone)

/-! ## Granted replies -/

/-- **A granted reply means connected**: the connect its request asked for has succeeded
before it is sent, and nothing from the server has been relayed yet. -/
def GrantedMeansConnected (log : List Action) : Prop :=
  ∀ earlier dest bytes later, log = earlier ++ .reply dest bytes :: later →
    bytes[1]? = some 0x5a →
      (∃ status, 0 ≤ status ∧ .connectDone dest status ∈ earlier) ∧
        ∀ relayed, .relay relayed ∉ earlier

/-- A granted reply was sent, and no connect was done before it. -/
def GrantedTooEarly (log : List Action) : Prop :=
  ∃ earlier dest later, log = earlier ++ .reply dest grantedReply :: later ∧
    ∀ dest status, .connectDone dest status ∉ earlier

theorem GrantedTooEarly.mono {log log' : List Action} (h : GrantedTooEarly log)
    (hle : log <+: log') : GrantedTooEarly log' := by
  obtain ⟨earlier, dest, later, rfl, hnone⟩ := h
  obtain ⟨more, rfl⟩ := hle
  exact ⟨earlier, dest, later ++ more, by simp, hnone⟩

theorem GrantedTooEarly.not_grantedMeansConnected {log : List Action}
    (h : GrantedTooEarly log) : ¬GrantedMeansConnected log := by
  obtain ⟨earlier, dest, later, hlog, hnone⟩ := h
  intro hgranted
  obtain ⟨⟨status, -, hdone⟩, -⟩ := hgranted earlier dest grantedReply later hlog rfl
  exact hnone dest status hdone

theorem Waiting.grantedMeansConnected {s : Session gap} (hs : s.Waiting) :
    GrantedMeansConnected s.log := by
  intro earlier dest bytes later hlog
  have hmem : Action.reply dest bytes ∈ s.log := by
    rw [hlog]
    exact List.mem_append_right _ List.mem_cons_self
  cases hs.log _ hmem

/-- The first request is answered before its connect is even started. -/
theorem Waiting.grantedTooEarly {s : Session gap} (hs : s.Waiting)
    (clientBuf : CharArray maxSize) :
    GrantedTooEarly ((s.received clientBuf).request clientBuf.bytes).log := by
  obtain ⟨rest, hlog, -⟩ := (s.received clientBuf).request_log clientBuf.bytes
  refine ⟨s.log, _, rest, hlog, ?_⟩
  intro dest status hmem
  cases hs.log _ hmem

/-- Either there was no request, or one was granted too early. -/
theorem Reaches.waiting_or {memory : Tunnel gap} {history : List (Event gap)} {s : Session gap}
    (h : Reaches memory history s) :
    (s.Waiting ∧
      s.tunnel.clientBuf.bytes = bufferAfter memory.clientBuf.bytes (clientReads history) ∧
      ∀ base ∈ clientBuffers memory.clientBuf.bytes (clientReads history),
        ¬OpensRequest base) ∨
    GrantedTooEarly s.log ∧
      ∃ base ∈ clientBuffers memory.clientBuf.bytes (clientReads history),
        OpensRequest base := by
  induction h with
  | start => exact Or.inl ⟨waiting_accept memory, rfl, fun _ h => by cases h⟩
  | @event history s t event before henabled hstep ih =>
      rw [clientReads_append, clientBuffers_append, bufferAfter_append]
      rcases ih with ⟨hs, hbuf, hquiet⟩ | ⟨hearly, base, hbase, hopens⟩
      · rcases quiet_or_opens s.tunnel.clientBuf.bytes event with hevent | ⟨data, rfl, hopens⟩
        · obtain ⟨t', hstep', ht, hbuf', -⟩ := hs.step_quiet henabled hevent
          obtain rfl := AbortingRun.ok_unique hstep hstep'
          rw [hbuf] at hbuf' hevent
          exact Or.inl ⟨ht, hbuf', List.forall_mem_append.mpr ⟨hquiet, hevent⟩⟩
        · obtain ⟨clientBuf, -, hstep'⟩ := step_request hs.live henabled.2 hopens
          obtain rfl := AbortingRun.ok_unique hstep hstep'
          rw [hbuf] at hopens
          exact Or.inr ⟨hs.grantedTooEarly clientBuf, _,
            List.mem_append_right _ List.mem_cons_self, hopens⟩
      · exact Or.inr ⟨hearly.mono (step_log hstep), base, List.mem_append_left _ hbase, hopens⟩

/-- **A granted reply means that the connect succeeded exactly in the runs without a
request**: in every other one the first reply says so before the connect is started. -/
theorem grantedMeansConnected_iff {memory : Tunnel gap} {history : List (Event gap)}
    {s : Session gap} (h : Reaches memory history s) :
    GrantedMeansConnected s.log ↔
      ∀ base ∈ clientBuffers memory.clientBuf.bytes (clientReads history),
        ¬OpensRequest base := by
  rcases h.waiting_or with ⟨hs, -, hquiet⟩ | ⟨hearly, base, hbase, hopens⟩
  · exact iff_of_true hs.grantedMeansConnected hquiet
  · exact iff_of_false hearly.not_grantedMeansConnected fun hquiet => hquiet base hbase hopens

/-- A client that has sent a byte, and no request. -/
theorem grantedMeansConnected_byte : ∃ s, Reaches zeroTunnel [.clientData [72]] s ∧
    (GrantedMeansConnected s.log ↔
      ∀ base ∈ clientBuffers zeroTunnel.clientBuf.bytes
          (clientReads [(.clientData [72] : Event 248)]),
        ¬OpensRequest base) := by
  have hrun : (runEvents zeroTunnel [.clientData [72]]).map freed = some false := by
    decide +kernel
  obtain ⟨s, hreach, -⟩ := exists_reaches_of_map hrun
  exact ⟨s, hreach, grantedMeansConnected_iff hreach⟩

/-- A request is granted, and the connect fails. -/
theorem not_grantedMeansConnected_refused : ∃ s,
    Reaches zeroTunnel [.clientData plainRequest.bytes, .connectDone localDest (-111)] s ∧
      ¬GrantedMeansConnected s.log := by
  have hrun : (runEvents zeroTunnel [.clientData plainRequest.bytes,
      .connectDone localDest (-111)]).map Session.log =
      some ([.tcpInit .client, .readStart .client] ++ .reply localDest grantedReply ::
        [.tcpInit .server, .connect localDest, .connectDone localDest (-111), .free]) := by
    decide +kernel
  obtain ⟨s, hreach, hlog⟩ := exists_reaches_of_map hrun
  refine ⟨s, hreach, GrantedTooEarly.not_grantedMeansConnected ⟨_, _, _, hlog, ?_⟩⟩
  intro dest status hmem
  simp at hmem

end Session

end LearnUv.Socks
