import LearnUv.Socks.Relay

/-!
# What the client sends before the tunnel is connected

Until the connect is done, what the client sends is kept in `server_buf`.  Nothing is
ever sent from there, so the server gets what the client sent only if nothing was kept;
and after the connect only what is forwarded before `client_buf` holds a request again.

The reads of the server come between those of the client.  They change nothing of what is
forwarded, but one that overruns the tunnel ends the run, so they have to stay inside.

## Main Definitions

* `ConnectRequest` — a CONNECT request of SOCKS4
* `LosesNothing` — no read that carries something meets a request in `client_buf`

## Main Results

* `forwarded_eq_sent_iff` — when the server gets all the client has sent
-/

namespace LearnUv.Socks

open DottedQuad (Quad)

/-! ## Requests -/

/-- A CONNECT request of SOCKS4 that fits into `client_buf`. -/
structure ConnectRequest where
  portHigh : UInt8
  portLow : UInt8
  addr : Quad
  user : List UInt8
  user_noNul : 0 ∉ user
  fits : 8 + user.length + 1 ≤ maxSize

namespace ConnectRequest

/-- The bytes of a request. -/
def bytes (request : ConnectRequest) : List UInt8 :=
  [4, 1, request.portHigh, request.portLow, request.addr.a, request.addr.b, request.addr.c,
    request.addr.d] ++ request.user ++ [0]

/-- The address and the port it names. -/
def dest (request : ConnectRequest) : SockAddrIn :=
  ⟨request.addr, UInt16.ofNat (256 * request.portHigh.toNat + request.portLow.toNat)⟩

theorem length_bytes (request : ConnectRequest) :
    request.bytes.length = 8 + request.user.length + 1 := by
  simp only [bytes, List.length_append, List.length_cons, List.length_nil]

theorem length_le (request : ConnectRequest) : request.bytes.length ≤ maxSize := by
  rw [length_bytes]
  exact request.fits

theorem opensRequest (request : ConnectRequest) : OpensRequest request.bytes := ⟨rfl, rfl⟩

end ConnectRequest

/-- A read that begins like a request leaves one in the buffer. -/
theorem OpensRequest.overwrite {data : List UInt8} (h : OpensRequest data)
    (base : List UInt8) : OpensRequest (overwrite base 0 data) := by
  obtain ⟨h0, h1⟩ := h
  have hlen := (List.getElem?_eq_some_iff.mp h1).1
  rw [LearnUv.overwrite, List.take_zero, List.nil_append]
  exact ⟨by rw [List.getElem?_append_left (by omega), h0],
    by rw [List.getElem?_append_left hlen, h1]⟩

/-! ## Reads in the states of the handshake -/

/-- From the first read on that leaves a request in `client_buf`, the reads are empty. -/
def LosesNothing : List UInt8 → List (List UInt8) → Prop
  | _, [] => True
  | base, data :: reads =>
      if OpensRequest (overwrite base 0 data) then ∀ d ∈ data :: reads, d = []
      else LosesNothing (overwrite base 0 data) reads

namespace Session

variable {gap : ℕ}

/-- A read of either stream. -/
def Event.IsRead : Event gap → Prop
  | .clientData data => data.length ≤ maxSize
  | .serverData data _ => data.length ≤ maxSize
  | _ => False

theorem Event.IsRead.eq {event : Event gap} (h : event.IsRead) :
    (∃ data, data.length ≤ maxSize ∧ event = .clientData data) ∨
      ∃ data behind, data.length ≤ maxSize ∧ event = .serverData data behind := by
  cases event with
  | clientData data => exact Or.inl ⟨data, h, rfl⟩
  | serverData data behind => exact Or.inr ⟨data, behind, h, rfl⟩
  | clientEnd nread => cases h
  | connectDone dest status => cases h
  | serverEnd nread => cases h
  | clientWriteEnd i => cases h

/-- The tunnel exists and is being connected. -/
structure Connecting (s : Session gap) : Prop where
  live : s.freed = false
  status : s.tunnel.status = .connectingToServer

theorem connecting_request {s : Session gap} (hlive : s.freed = false) (base : List UInt8) :
    (s.request base).Connecting := ⟨hlive, rfl⟩

/-- A read of the server that returned, in a session of any state. -/
theorem serverData_frame {s t : Session gap} (hlive : s.freed = false) {data : List UInt8}
    {behind : CharArray gap} (hstep : s.step (.serverData data behind) = .ok t) :
    t.freed = false ∧ t.tunnel.status = s.tunnel.status ∧
      t.tunnel.clientBuf = s.tunnel.clientBuf ∧ forwarded t.log = forwarded s.log := by
  obtain ⟨-, serverBuf, stale, -, rfl⟩ := serverData_eq_ok hlive hstep
  refine ⟨hlive, rfl, rfl, ?_⟩
  simp [record, forwarded]

/-- A read of the server that stays inside the tunnel returns. -/
theorem exists_serverData {s : Session gap} (hlive : s.freed = false) {data : List UInt8}
    {behind : CharArray gap} (hinside : (Event.serverData data behind).Inside) :
    ∃ t, s.step (.serverData data behind) = .ok t := by
  obtain ⟨serverBuf, stale, -, hstep⟩ := step_serverData hlive behind hinside
  exact ⟨_, hstep⟩

/-- A read does not free the tunnel. -/
theorem Event.IsRead.live {s t : Session gap} {event : Event gap} (hread : event.IsRead)
    (hlive : s.freed = false) (hstep : s.step event = .ok t) : t.freed = false := by
  rcases hread.eq with ⟨data, -, rfl⟩ | ⟨data, behind, -, rfl⟩
  · obtain ⟨clientBuf, -, hcases⟩ := clientData_eq_ok hlive hstep
    rcases hcases with ⟨-, rfl⟩ | ⟨-, ⟨-, rfl⟩ | ⟨-, -, serverBuf, rfl⟩ | ⟨-, -, rfl⟩⟩ <;>
      exact hlive
  · exact (serverData_frame hlive hstep).1

/-- Reads that returned have stayed inside the tunnel. -/
theorem inside_of_run {s t : Session gap} (hlive : s.freed = false) {events : List (Event gap)}
    (hreads : ∀ event ∈ events, event.IsRead) (hrun : s.run events = .ok t) :
    ∀ event ∈ events, event.Inside := by
  induction events generalizing s with
  | nil => exact List.forall_mem_nil _
  | cons event events ih =>
      obtain ⟨hread, hrest⟩ := List.forall_mem_cons.mp hreads
      obtain ⟨u, hstep, hrun⟩ := run_cons_eq_ok.mp hrun
      exact List.forall_mem_cons.mpr
        ⟨inside_of_step hlive hstep, ih (hread.live hlive hstep) hrest hrun⟩

/-- While the tunnel is being connected no read is forwarded. -/
theorem Connecting.step_read {s t : Session gap} (hs : s.Connecting) {event : Event gap}
    (hread : event.IsRead) (hstep : s.step event = .ok t) :
    t.Connecting ∧ forwarded t.log = forwarded s.log := by
  rcases hread.eq with ⟨data, -, rfl⟩ | ⟨data, behind, -, rfl⟩
  · obtain ⟨clientBuf, -, hcases⟩ := clientData_eq_ok hs.live hstep
    rcases hcases with ⟨-, rfl⟩ | ⟨-, ⟨hconnected, -⟩ | ⟨-, -, serverBuf, rfl⟩ | ⟨-, hne, -⟩⟩
    · exact ⟨connecting_request (s := s.received clientBuf) hs.live _, forwarded_request _ _⟩
    · rw [hs.status] at hconnected
      cases hconnected
    · refine ⟨⟨hs.live, hs.status⟩, ?_⟩
      simp [kept, received, forwarded]
    · exact absurd hs.status hne
  · obtain ⟨hlive, hstatus, -, hforwarded⟩ := serverData_frame hs.live hstep
    exact ⟨⟨hlive, hstatus.trans hs.status⟩, hforwarded⟩

theorem Connecting.run_reads {s t : Session gap} (hs : s.Connecting) {events : List (Event gap)}
    (hreads : ∀ event ∈ events, event.IsRead) (hrun : s.run events = .ok t) :
    t.Connecting ∧ forwarded t.log = forwarded s.log := by
  induction events generalizing s with
  | nil =>
      cases hrun
      exact ⟨hs, rfl⟩
  | cons event events ih =>
      obtain ⟨u, hstep, hrun⟩ := run_cons_eq_ok.mp hrun
      obtain ⟨hu, hforwarded⟩ := hs.step_read (hreads event List.mem_cons_self) hstep
      obtain ⟨ht, hrest⟩ := ih hu (fun e he => hreads e (List.mem_cons_of_mem _ he)) hrun
      exact ⟨ht, hrest.trans hforwarded⟩

/-- With a request in `client_buf`, reads of nothing from the client repeat it. -/
theorem Connecting.run_empty {s : Session gap} (hs : s.Connecting) {events : List (Event gap)}
    (hopens : OpensRequest s.tunnel.clientBuf.bytes)
    (hreads : ∀ event ∈ events, event.IsRead) (hinside : ∀ event ∈ events, event.Inside)
    (hempty : ∀ data ∈ clientReads events, data = []) :
    ∃ t, s.run events = .ok t ∧ t.tunnel.clientBuf.bytes = s.tunnel.clientBuf.bytes := by
  induction events generalizing s with
  | nil => exact ⟨s, rfl, rfl⟩
  | cons event events ih =>
      obtain ⟨hread, hrest⟩ := List.forall_mem_cons.mp hreads
      obtain ⟨hevent, hinside'⟩ := List.forall_mem_cons.mp hinside
      rcases hread.eq with ⟨data, -, rfl⟩ | ⟨data, behind, -, rfl⟩
      · obtain ⟨rfl, hempty'⟩ := List.forall_mem_cons.mp hempty
        have hnone : ([] : List UInt8).length ≤ maxSize := Nat.zero_le _
        obtain ⟨clientBuf, hbytes, hstep⟩ :=
          step_request hs.live hnone (by rwa [overwrite_zero_nil])
        rw [overwrite_zero_nil] at hbytes
        obtain ⟨t, hrun, ht⟩ := ih (s := (s.received clientBuf).request clientBuf.bytes)
          (connecting_request (s := s.received clientBuf) hs.live _)
          (by rw [← hbytes] at hopens; exact hopens) hrest hinside' hempty'
        exact ⟨t, run_cons_eq_ok.mpr ⟨_, hstep, hrun⟩, ht.trans hbytes⟩
      · obtain ⟨u, hstep⟩ := exists_serverData hs.live hevent
        obtain ⟨hlive, hstatus, hbuf, -⟩ := serverData_frame hs.live hstep
        obtain ⟨t, hrun, ht⟩ := ih (s := u) ⟨hlive, hstatus.trans hs.status⟩
          (by rw [hbuf]; exact hopens) hrest hinside' hempty
        exact ⟨t, run_cons_eq_ok.mpr ⟨u, hstep, hrun⟩, ht.trans (by rw [hbuf])⟩

/-- Reads forward at most what was read. -/
theorem run_forwarded_le {s t : Session gap} (hlive : s.freed = false) {events : List (Event gap)}
    (hreads : ∀ event ∈ events, event.IsRead) (hrun : s.run events = .ok t) :
    ∃ out, forwarded t.log = forwarded s.log ++ out ∧
      out.length ≤ (clientReads events).flatten.length := by
  induction events generalizing s with
  | nil =>
      cases hrun
      exact ⟨[], (List.append_nil _).symm, le_rfl⟩
  | cons event events ih =>
      obtain ⟨u, hstep, hrun⟩ := run_cons_eq_ok.mp hrun
      have hrest : ∀ e ∈ events, e.IsRead := fun e he => hreads e (List.mem_cons_of_mem _ he)
      have hhead : u.freed = false ∧ ∃ out, forwarded u.log = forwarded s.log ++ out ∧
          out.length ≤ (clientReads [event]).flatten.length := by
        rcases (hreads event List.mem_cons_self).eq with ⟨data, -, rfl⟩ | ⟨data, behind, -, rfl⟩
        · obtain ⟨clientBuf, -, hcases⟩ := clientData_eq_ok hlive hstep
          rcases hcases with ⟨-, rfl⟩ | ⟨-, ⟨-, rfl⟩ | ⟨-, -, serverBuf, rfl⟩ | ⟨-, -, rfl⟩⟩
          · refine ⟨hlive, [], ?_, Nat.zero_le _⟩
            rw [forwarded_request, List.append_nil]
            rfl
          · exact ⟨hlive, data, by simp [Session.forward, received, forwarded],
              by simp [clientReads]⟩
          · exact ⟨hlive, [], by simp [kept, received, forwarded], Nat.zero_le _⟩
          · exact ⟨hlive, [], by simp [record, received, forwarded], Nat.zero_le _⟩
        · obtain ⟨hlive', -, -, hforwarded⟩ := serverData_frame hlive hstep
          exact ⟨hlive', [], by rw [hforwarded, List.append_nil], Nat.zero_le _⟩
      obtain ⟨hu, out, hout, hle⟩ := hhead
      obtain ⟨out', hout', hle'⟩ := ih hu hrest hrun
      refine ⟨out ++ out', by rw [hout', hout, List.append_assoc], ?_⟩
      rw [clientReads_cons, List.flatten_append, List.length_append, List.length_append]
      omega

/-- **After the connect**, the server gets what the client sends exactly when no read that
carries something meets a request in `client_buf`, and no read of the server overruns the
tunnel. -/
theorem Established.forwarded_eq_iff {s : Session gap} (hs : s.Established)
    {events : List (Event gap)} (hreads : ∀ event ∈ events, event.IsRead) :
    (∃ t, s.run events = .ok t ∧
      forwarded t.log = forwarded s.log ++ (clientReads events).flatten) ↔
      LosesNothing s.tunnel.clientBuf.bytes (clientReads events) ∧
        ∀ event ∈ events, event.Inside := by
  induction events generalizing s with
  | nil =>
      exact ⟨fun _ => ⟨trivial, List.forall_mem_nil _⟩,
        fun _ => ⟨s, rfl, (List.append_nil _).symm⟩⟩
  | cons event events ih =>
      have hrest : ∀ e ∈ events, e.IsRead := fun e he => hreads e (List.mem_cons_of_mem _ he)
      rcases (hreads event List.mem_cons_self).eq with
        ⟨data, hfits, rfl⟩ | ⟨data, behind, -, rfl⟩
      · have hcons : clientReads (.clientData data :: events) = data :: clientReads events := rfl
        have hevents : (∀ e ∈ .clientData data :: events, e.Inside) ↔ ∀ e ∈ events, e.Inside :=
          List.forall_mem_cons.trans (and_iff_right trivial)
        rw [hcons, LosesNothing, hevents]
        by_cases hopens : OpensRequest (overwrite s.tunnel.clientBuf.bytes 0 data)
        · rw [if_pos hopens]
          obtain ⟨clientBuf, hbytes, hstep⟩ := step_request hs.live hfits hopens
          have hu := connecting_request (s := s.received clientBuf) hs.live clientBuf.bytes
          have hlog := forwarded_request (s.received clientBuf) clientBuf.bytes
          constructor
          · rintro ⟨t, hrun, hforwarded⟩
            obtain ⟨u, hu', hrun⟩ := run_cons_eq_ok.mp hrun
            obtain rfl := AbortingRun.ok_unique hstep hu'
            rw [(hu.run_reads hrest hrun).2.trans hlog] at hforwarded
            exact ⟨List.flatten_eq_nil_iff.mp (List.self_eq_append_right.mp hforwarded),
              inside_of_run hu.live hrest hrun⟩
          · rintro ⟨hempty, hinside⟩
            obtain ⟨rfl, hempty'⟩ := List.forall_mem_cons.mp hempty
            obtain ⟨t, hrun, -⟩ := hu.run_empty (by rw [← hbytes] at hopens; exact hopens)
              hrest hinside hempty'
            refine ⟨t, run_cons_eq_ok.mpr ⟨_, hstep, hrun⟩, ?_⟩
            rw [(hu.run_reads hrest hrun).2.trans hlog, List.flatten_eq_nil_iff.mpr hempty,
              List.append_nil]
            rfl
        · rw [if_neg hopens]
          obtain ⟨u, hstep, hu, hlog, hbytes⟩ := hs.step_forward hfits hopens
          have hforwarded : forwarded u.log = forwarded s.log ++ data := by
            rw [hlog, forwarded_append]
            simp [forwarded]
          rw [← hbytes, ← ih hu hrest]
          simp only [run_cons_eq_ok, hstep, Except.ok.injEq, exists_eq_left', hforwarded,
            List.flatten_cons, List.append_assoc]
      · have hcons : clientReads (.serverData data behind :: events) = clientReads events := rfl
        rw [hcons, List.forall_mem_cons]
        by_cases hinside : (Event.serverData data behind).Inside
        · obtain ⟨u, hstep⟩ := exists_serverData hs.live hinside
          obtain ⟨hlive, hstatus, hbuf, hforwarded⟩ := serverData_frame hs.live hstep
          rw [and_iff_right hinside, ← hbuf,
            ← ih (s := u) ⟨hlive, hstatus.trans hs.status⟩ hrest]
          simp only [run_cons_eq_ok, hstep, Except.ok.injEq, exists_eq_left', hforwarded]
        · refine iff_of_false ?_ fun h => hinside h.2.1
          rintro ⟨t, hrun, -⟩
          obtain ⟨u, hstep, -⟩ := run_cons_eq_ok.mp hrun
          exact hinside (inside_of_step hs.live hstep)

/-- A connect that succeeds establishes the tunnel, and starts the reads from the server. -/
theorem Connecting.step_connected {s : Session gap} (hs : s.Connecting)
    (dest : Option SockAddrIn) {status : ℤ} (hstatus : 0 ≤ status) :
    ∃ t, s.step (.connectDone dest status) = .ok t ∧ t.Established ∧
      t.tunnel.clientBuf = s.tunnel.clientBuf ∧ forwarded t.log = forwarded s.log := by
  refine ⟨_, Session.step_connected hs.live dest (Int.not_lt.mpr hstatus), ⟨hs.live, rfl⟩, rfl,
    ?_⟩
  simp [forwarded]

/-- A new client sends its request at once. -/
theorem accept_request (memory : Tunnel gap) (request : ConnectRequest) :
    ∃ s, (accept memory).step (.clientData request.bytes) = .ok s ∧ s.Connecting ∧
      s.tunnel.clientBuf.bytes = overwrite memory.clientBuf.bytes 0 request.bytes ∧
        forwarded s.log = [] := by
  obtain ⟨clientBuf, hbytes, hstep⟩ := step_request (s := accept memory) rfl request.length_le
    (request.opensRequest.overwrite _)
  refine ⟨_, hstep, connecting_request (s := (accept memory).received clientBuf) rfl _,
    hbytes, ?_⟩
  rw [forwarded_request]
  rfl

/-- **No byte of the client is lost exactly when none comes before the tunnel is
connected**, and none after a read that leaves a request in `client_buf`; and when no read
of the server overruns the tunnel.  The request is read at once; then come reads of the
client, the connect that succeeds, and reads of either side. -/
theorem forwarded_eq_sent_iff {memory : Tunnel gap} {request : ConnectRequest}
    {connecting : List (List UInt8)} (hfits : ∀ data ∈ connecting, data.length ≤ maxSize)
    {dest : Option SockAddrIn} {status : ℤ} (hstatus : 0 ≤ status) {later : List (Event gap)}
    (hlater : ∀ event ∈ later, event.IsRead) :
    (∃ t, (accept memory).run (.clientData request.bytes ::
        (connecting.map .clientData ++ .connectDone dest status :: later)) = .ok t ∧
      forwarded t.log = connecting.flatten ++ (clientReads later).flatten) ↔
      (∀ data ∈ connecting, data = []) ∧
        LosesNothing (overwrite memory.clientBuf.bytes 0 request.bytes) (clientReads later) ∧
          ∀ event ∈ later, event.Inside := by
  obtain ⟨s, hstep, hs, hbuf, hempty⟩ := accept_request memory request
  have hreads : ∀ event ∈ connecting.map (.clientData : _ → Event gap), event.IsRead :=
    List.forall_mem_map.mpr hfits
  have hinside : ∀ event ∈ connecting.map (.clientData : _ → Event gap), event.Inside :=
    List.forall_mem_map.mpr fun _ _ => trivial
  have hrepeat : (∀ data ∈ connecting, data = []) →
      ∃ u, s.run (connecting.map .clientData) = .ok u ∧
        u.tunnel.clientBuf.bytes = s.tunnel.clientBuf.bytes := by
    intro hconnecting
    refine hs.run_empty ?_ hreads hinside (by rwa [clientReads_map])
    rw [hbuf]
    exact request.opensRequest.overwrite _
  have hsplit : ∀ t, (accept memory).run (.clientData request.bytes ::
      (connecting.map .clientData ++ .connectDone dest status :: later)) = .ok t ↔
      ∃ u, s.run (connecting.map .clientData) = .ok u ∧
        u.run (.connectDone dest status :: later) = .ok t := by
    intro t
    rw [run_cons_eq_ok, hstep]
    simp only [Except.ok.injEq, exists_eq_left', run, AbortingRun.run_append_eq_ok]
  simp only [hsplit]
  constructor
  · rintro ⟨t, ⟨u, hu, hrun⟩, hforwarded⟩
    obtain ⟨hconn, hsame⟩ := hs.run_reads hreads hu
    obtain ⟨v, hv, hest, hbufv, hlog⟩ := hconn.step_connected dest hstatus
    obtain ⟨v', hv', hrun⟩ := run_cons_eq_ok.mp hrun
    obtain rfl := AbortingRun.ok_unique hv hv'
    have hnone : forwarded v.log = [] := by rw [hlog, hsame, hempty]
    obtain ⟨out, hout, hle⟩ := run_forwarded_le hest.live hlater hrun
    -- too little is forwarded for anything to have been kept
    have hkept : connecting.flatten = [] := by
      have hlen := congrArg List.length (hforwarded.symm.trans hout)
      rw [hnone, List.nil_append, List.length_append] at hlen
      exact List.eq_nil_of_length_eq_zero (by omega)
    have hconnecting := List.flatten_eq_nil_iff.mp hkept
    refine ⟨hconnecting, ?_⟩
    obtain ⟨u', hu', hbufu⟩ := hrepeat hconnecting
    obtain rfl := AbortingRun.ok_unique hu hu'
    rw [← hbuf, ← hbufu, ← hbufv, ← hest.forwarded_eq_iff hlater]
    refine ⟨t, hrun, ?_⟩
    rw [hforwarded, hkept, hnone]
  · rintro ⟨hconnecting, hlose⟩
    obtain ⟨u, hu, hbufu⟩ := hrepeat hconnecting
    obtain ⟨hconn, hsame⟩ := hs.run_reads hreads hu
    obtain ⟨v, hv, hest, hbufv, hlog⟩ := hconn.step_connected dest hstatus
    rw [← hbuf, ← hbufu, ← hbufv, ← hest.forwarded_eq_iff hlater] at hlose
    obtain ⟨t, hrun, hforwarded⟩ := hlose
    refine ⟨t, ⟨u, hu, run_cons_eq_ok.mpr ⟨v, hv, hrun⟩⟩, ?_⟩
    rw [hforwarded, hlog, hsame, hempty, List.flatten_eq_nil_iff.mpr hconnecting]

/-- The request for port 80 of 127.0.0.1. -/
def plainRequest : ConnectRequest where
  portHigh := 0
  portLow := 80
  addr := ⟨127, 0, 0, 1⟩
  user := []
  user_noNul := List.not_mem_nil
  fits := by decide

/-- What comes after the connect: two bytes of the client, and one of the server. -/
def exchange : List (Event 248) :=
  [.clientData [72, 105], .serverData [7] (CharArray.zeros _)]

/-- A client that waits for the connect, and then sends two bytes. -/
theorem forwarded_eq_sent_patient :
    (∃ t, (accept zeroTunnel).run (.clientData plainRequest.bytes ::
        (([] : List (List UInt8)).map .clientData ++
          .connectDone localDest 0 :: exchange)) = .ok t ∧
      forwarded t.log = ([] : List (List UInt8)).flatten ++ (clientReads exchange).flatten) ↔
      (∀ data ∈ ([] : List (List UInt8)), data = []) ∧
        LosesNothing (overwrite zeroTunnel.clientBuf.bytes 0 plainRequest.bytes)
          (clientReads exchange) ∧ ∀ event ∈ exchange, event.Inside := by
  refine forwarded_eq_sent_iff (by simp) le_rfl ?_
  intro event hevent
  rcases List.mem_pair.mp hevent with rfl | rfl
  · exact show [72, 105].length ≤ maxSize by decide
  · exact show [7].length ≤ maxSize by decide

/-- A client that sends a byte at once loses it. -/
theorem not_forwarded_hasty : ∃ t,
    Reaches zeroTunnel [.clientData plainRequest.bytes, .clientData [72],
      .connectDone localDest 0] t ∧
    forwarded t.log ≠ [[72]].flatten ++ (clientReads ([] : List (Event 248))).flatten := by
  have hrun : (runEvents zeroTunnel [.clientData plainRequest.bytes, .clientData [72],
      .connectDone localDest 0]).map (fun t => forwarded t.log) = some [] := by
    decide +kernel
  obtain ⟨t, hreach, hforwarded⟩ := exists_reaches_of_map hrun
  refine ⟨t, hreach, ?_⟩
  rw [hforwarded]
  simp

end Session

end LearnUv.Socks
