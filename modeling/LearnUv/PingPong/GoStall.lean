import LearnUv.PingPong.GoCirculation

/-!
# When the Go programs of `pingpong` wait for each other

The server reads nothing while it is in a `Write`, and a `Write` waits when the connection is
full.  The loop of the client reads nothing while it writes, or waits to write because the
copy has not returned.  So the two can wait for each other: both directions are full, and each
side holds something that it has to write before it reads again.

That takes as many bytes as the connection holds in both directions, and two more.  The block
is all there is (`Flows.length_circulating`), so a smaller one cannot fill everything, and then
somebody can always go on.

A block that is large enough can.  The client writes it byte by byte, and the server reads each
byte and sends it back; the client reads the first one that has come back, and no other.  When
the way back is full, the server reads one byte more, and has to send it back before it reads
again; and the client fills the way to the server.  No event but the timer is possible then.

## Main Definitions

* `Stalled` — nothing can happen until the timer closes the connection
* `Full` — everything that can hold something does
* `Filling`, `HandedOver` — the states on the way to a stall
* `Blocked` — the last of them

## Main Results

* `Flows.goes_on_or_full` — somebody can go on, or everything is full
* `stalls_iff` — the programs can come to wait for each other exactly when the block is larger,
  by two bytes or more, than what the connection holds
-/

namespace LearnUv.GoPingPong

namespace Session

variable {blocksize : ℤ} {sockets : Sockets} {s t : Session}

/-- Nothing can happen until the timer closes the connection. -/
def Stalled (blocksize : ℤ) (sockets : Sockets) (s : Session) : Prop :=
  ∀ event, event ≠ .close → ¬s.Enabled blocksize sockets event

/-! ## What the connection holds -/

/-- What is passed on, of `k` bytes, is on its way. -/
theorem length_passed_sub_le (passed bytes read : List UInt8) (k : ℕ) :
    (passed ++ bytes.take k).length - read.length ≤ passed.length - read.length + k := by
  have hle := List.length_take_le k bytes
  rw [List.length_append]
  omega

/-- What is read is on its way no more. -/
theorem length_sub_read_le (passed read data : List UInt8) :
    passed.length - (read ++ data).length ≤ passed.length - read.length := by
  rw [List.length_append]
  omega

/-- The connection holds no more than it has room for. -/
structure Fits (sockets : Sockets) (s : Session) : Prop where
  toServer : s.onTheWay ≤ sockets.toServer
  toClient : s.onTheWayBack ≤ sockets.toClient

theorem fits_start : Fits sockets start := ⟨Nat.zero_le _, Nat.zero_le _⟩

/-- What is passed on has room, and what is read makes room. -/
theorem Fits.step (h : Fits sockets s) {event : SessionEvent}
    (henabled : s.Enabled blocksize sockets event) (hstep : s.step blocksize event = .ok t) :
    Fits sockets t := by
  obtain ⟨hserver, hclient⟩ := h
  cases event with
  | copyBegin =>
      cases hstep
      exact ⟨hserver, hclient⟩
  | copyPass k =>
      obtain ⟨-, -, -, -, hroom⟩ := henabled
      simp only [Session.step] at hstep
      split at hstep <;> cases hstep
      · exact ⟨(length_passed_sub_le _ _ _ _).trans hroom, hclient⟩
      · exact ⟨hserver, hclient⟩
  | copyReturn err =>
      simp only [Session.step] at hstep
      split at hstep <;> cases hstep <;> exact ⟨hserver, hclient⟩
  | echoRead data err =>
      obtain ⟨hphase, hsize, -⟩ := henabled
      obtain ⟨rbuf, hstore, -⟩ :=
        s.echo.rbuf.store_of_fits (show 0 + data.length ≤ bufSize by omega)
      simp only [Session.step, hphase, hstore, AbortingRun.ok_bind] at hstep
      cases hstep
      exact ⟨hserver, (length_sub_read_le _ _ _).trans hclient⟩
  | echoBegin =>
      simp only [Session.step] at hstep
      split at hstep <;> cases hstep <;> exact ⟨hserver, hclient⟩
  | echoPass k =>
      obtain ⟨-, -, hroom, -⟩ := henabled
      simp only [Session.step] at hstep
      split at hstep <;> cases hstep
      · exact ⟨(length_passed_sub_le _ _ _ _).trans hroom, hclient⟩
      · exact ⟨hserver, hclient⟩
  | echoReturn err =>
      simp only [Session.step] at hstep
      split at hstep <;> cases hstep <;> exact ⟨hserver, hclient⟩
  | serverRead data err =>
      obtain ⟨server, hread, ht⟩ := AbortingRun.bind_eq_ok.mp hstep
      obtain ⟨buf, count, -, hok⟩ := step_read henabled.1
      obtain rfl := AbortingRun.ok_unique hok hread
      cases ht
      exact ⟨(length_sub_read_le _ _ _).trans hserver, hclient⟩
  | serverPass k =>
      obtain ⟨-, -, hroom, -⟩ := henabled
      cases hstep
      exact ⟨hserver, (length_passed_sub_le _ _ _ _).trans hroom⟩
  | serverReturn err =>
      obtain ⟨server, hwrite, ht⟩ := AbortingRun.bind_eq_ok.mp hstep
      obtain rfl := AbortingRun.ok_unique (step_wrote henabled.1) hwrite
      cases ht
      exact ⟨hserver, hclient⟩
  | close =>
      cases hstep
      exact ⟨hserver, hclient⟩

/-- In every state it reaches. -/
theorem Reaches.fits {history : List SessionEvent} (h : Reaches blocksize sockets history s) :
    Fits sockets s :=
  AbortingRun.Reaches.invariant h fits_start fun _ _ _ hfits henabled hstep =>
    hfits.step henabled hstep

/-- **The block is all there is.** -/
theorem Flows.length_circulating (h : Flows blocksize s) (hopen : s.closed = false) :
    s.echo.held.length + s.onTheWayBack + s.serverHeld.length + s.onTheWay +
      ((bufs blocksize).length - s.copy.sent) = (bufs blocksize).length := by
  have hround := congrArg List.length (h.passed_append_circulating hopen)
  simp only [circulating, List.length_append, List.length_drop] at hround
  rw [onTheWay, onTheWayBack]
  omega

/-! ## Somebody can go on, or everything is full -/

/-- Everything that can hold something does: the connection in both directions, the server,
and the loop of the client. -/
structure Full (sockets : Sockets) (s : Session) : Prop where
  toServer : sockets.toServer ≤ s.onTheWay
  toClient : sockets.toClient ≤ s.onTheWayBack
  server : s.serverHeld ≠ []
  client : s.echo.held ≠ []

/-- Somebody can go on before the timer fires. -/
def GoesOn (blocksize : ℤ) (sockets : Sockets) (s : Session) : Prop :=
  ∃ event, event ≠ .close ∧ s.Enabled blocksize sockets event

/-- What is on the way is there to be read. -/
theorem exists_next {passed read : List UInt8} (h : 0 < passed.length - read.length) :
    ∃ c, [c] <+: passed.drop read.length := by
  rw [← List.length_drop] at h
  obtain ⟨c, rest, hnext⟩ := List.exists_cons_of_length_pos h
  exact ⟨c, rest, hnext.symm⟩

/-- The server goes on when there is something for it, unless the way back is full. -/
theorem Flows.server_goes_on (h : Flows blocksize s) (hopen : s.closed = false)
    (hsome : s.serverHeld ≠ [] ∨ 0 < s.onTheWay) :
    GoesOn blocksize sockets s ∨ sockets.toClient ≤ s.onTheWayBack ∧ s.serverHeld ≠ [] := by
  obtain ⟨-, hfailed, hended⟩ := h.running hopen
  cases hphase : s.server.phase with
  | reading =>
      have hnone : s.serverHeld = [] := by
        rw [serverHeld, Loop.current_of_reading hphase, List.drop_nil]
      obtain ⟨c, hnext⟩ := exists_next (hsome.resolve_left fun hne => hne hnone)
      refine Or.inl ⟨.serverRead [c] none, SessionEvent.noConfusion,
        ⟨hphase, Nat.one_le_two_pow⟩, hnext, ?_⟩
      rw [if_pos rfl]
      exact List.cons_ne_nil _ _
  | writing c =>
      obtain ⟨earlier, hfaithful⟩ := h.server.faithful
      have hlength := hfaithful.length_current c hphase
      have hle := h.server.sent_le
      rw [hlength] at hle
      have hroom : c ≤ bufSize := by
        rw [← hlength, Loop.current, hphase]
        exact (List.length_take_le' _ _).trans s.server.buf.length_eq.le
      rcases Nat.lt_or_eq_of_le hle with hlt | heq
      · rcases Nat.lt_or_ge s.onTheWayBack sockets.toClient with hfree | hfull
        · exact Or.inl ⟨.serverPass 1, SessionEvent.noConfusion, hfailed, Nat.one_pos, hfree, c,
            hphase, hlt⟩
        · refine Or.inr ⟨hfull, List.ne_nil_of_length_pos ?_⟩
          rw [serverHeld, List.length_drop, hlength]
          omega
      · refine Or.inl ⟨.serverReturn false, SessionEvent.noConfusion,
          ⟨c, hroom, hphase, hle, ?_⟩, fun hfalse => by cases hfalse⟩
        omega
  | ended afterError => exact absurd hphase (hended afterError)

/-- A write of the loop goes on, or returns, unless the way to the server is full. -/
theorem Flows.echo_goes_on (h : Flows blocksize s) (hopen : s.closed = false) {rc sent : ℕ}
    (hphase : s.echo.phase = .writing rc sent) :
    GoesOn blocksize sockets s ∨ sockets.toServer ≤ s.onTheWay ∧ s.echo.held ≠ [] := by
  obtain ⟨hle, hroom⟩ := h.echo.writing rc sent hphase
  rcases Nat.lt_or_eq_of_le hle with hlt | heq
  · rcases Nat.lt_or_ge s.onTheWay sockets.toServer with hfree | hfull
    · exact Or.inl ⟨.echoPass 1, SessionEvent.noConfusion, hopen, Nat.one_pos, hfree, rc, sent,
        hphase, hlt⟩
    · refine Or.inr ⟨hfull, List.ne_nil_of_length_pos ?_⟩
      have hrbuf := s.echo.rbuf.length_eq
      rw [Echo.held, hphase]
      show 0 < ((s.echo.rbuf.bytes.take rc).drop sent).length
      rw [List.length_drop, List.length_take]
      omega
  · exact Or.inl ⟨.echoReturn false, SessionEvent.noConfusion, rc, sent, hphase, heq⟩

/-- The loop goes on when there is something for it to read. -/
theorem goes_on_of_reading (hphase : s.echo.phase = .reading) (hsome : 0 < s.onTheWayBack) :
    GoesOn blocksize sockets s := by
  obtain ⟨c, hnext⟩ := exists_next hsome
  exact ⟨.echoRead [c] false, SessionEvent.noConfusion, hphase, Nat.one_le_two_pow, hnext,
    List.cons_ne_nil _ _⟩

/-- What the loop waits to write is something. -/
theorem Flows.held_of_waiting (h : Flows blocksize s) {rc : ℕ}
    (hphase : s.echo.phase = .waiting rc) : s.echo.held ≠ [] := by
  obtain ⟨hpos, hroom⟩ := h.echo.waiting rc hphase
  have hrbuf := s.echo.rbuf.length_eq
  apply List.ne_nil_of_length_pos
  rw [Echo.held, hphase]
  show 0 < (s.echo.rbuf.bytes.take rc).length
  rw [List.length_take]
  omega

/-- While the copy is in its write the loop does not write, so it reads or waits. -/
theorem Flows.copying_goes_on (h : Flows blocksize s) (hopen : s.closed = false)
    (hwriting : s.copy.isWriting = true) : GoesOn blocksize sockets s ∨ Full sockets s := by
  have hserverRoom := sockets.toServer_pos
  have hclientRoom := sockets.toClient_pos
  rcases Nat.lt_or_eq_of_le h.copied with hlt | heq
  · rcases Nat.lt_or_ge s.onTheWay sockets.toServer with hfree | hfull
    · exact Or.inl ⟨.copyPass 1, SessionEvent.noConfusion, hopen, hwriting, Nat.one_pos, hlt,
        hfree⟩
    · -- the way to the server is full
      rcases h.server_goes_on hopen (Or.inr (by omega)) with hgoes | ⟨hback, hserver⟩
      · exact Or.inl hgoes
      · cases hphase : s.echo.phase with
        | reading => exact Or.inl (goes_on_of_reading hphase (by omega))
        | waiting rc => exact Or.inr ⟨hfull, hback, hserver, h.held_of_waiting hphase⟩
        | writing rc sent =>
            have hlock := h.lock hwriting
            rw [hphase] at hlock
            cases hlock
        | ended => exact absurd hphase (h.running hopen).1
  · exact Or.inl ⟨.copyReturn false, SessionEvent.noConfusion, hwriting, heq⟩

/-- When the copy has returned, and the loop has nothing to read, all the bytes of the block
are with the server or on their way there. -/
theorem Flows.server_goes_on_of_reading (h : Flows blocksize s) (hopen : s.closed = false)
    (hblock : bufs blocksize ≠ []) (hsent : s.copy.sent = (bufs blocksize).length)
    (hphase : s.echo.phase = .reading) (hnone : s.onTheWayBack = 0) :
    GoesOn blocksize sockets s := by
  have hclientRoom := sockets.toClient_pos
  have hround := h.length_circulating hopen
  have hpos := List.length_pos_of_ne_nil hblock
  have hheld : s.echo.held = [] := by rw [Echo.held, hphase]
  rw [hheld, hnone, hsent] at hround
  simp only [List.length_nil] at hround
  have hserver : s.serverHeld ≠ [] ∨ 0 < s.onTheWay := by
    rw [← List.length_pos_iff]
    omega
  refine (h.server_goes_on hopen hserver).resolve_right fun hback => ?_
  omega

/-- **Somebody can go on, or everything is full**, while the connection is open and there is
a block. -/
theorem Flows.goes_on_or_full (h : Flows blocksize s) (hopen : s.closed = false)
    (hblock : bufs blocksize ≠ []) : GoesOn blocksize sockets s ∨ Full sockets s := by
  have hserverRoom := sockets.toServer_pos
  cases hcopy : s.copy with
  | ready =>
      cases hphase : s.echo.phase with
      | writing rc sent =>
          refine Or.inl ((h.echo_goes_on hopen hphase).resolve_right fun hfull => ?_)
          have hnone : s.onTheWay = 0 := by
            rw [onTheWay, h.eq_nil_of_ready hcopy, List.length_nil, Nat.zero_sub]
          omega
      | _ => exact Or.inl ⟨.copyBegin, SessionEvent.noConfusion, hcopy, by rw [hphase]; rfl⟩
  | writing sent => exact h.copying_goes_on hopen (by rw [hcopy]; rfl)
  | returned wc err =>
      have hfree : s.copy.isWriting = false := by rw [hcopy]; rfl
      have hsent : s.copy.sent = (bufs blocksize).length := by
        rw [hcopy]
        exact h.returned wc err hcopy hopen
      cases hphase : s.echo.phase with
      | ended => exact absurd hphase (h.running hopen).1
      | waiting rc =>
          exact Or.inl ⟨.echoBegin, SessionEvent.noConfusion, ⟨rc, hphase⟩, hfree⟩
      | writing rc sent =>
          rcases h.echo_goes_on hopen hphase with hgoes | ⟨hfull, hclient⟩
          · exact Or.inl hgoes
          · rcases h.server_goes_on hopen (Or.inr (by omega)) with hgoes | ⟨hback, hserver⟩
            · exact Or.inl hgoes
            · exact Or.inr ⟨hfull, hback, hserver, hclient⟩
      | reading =>
          rcases Nat.eq_zero_or_pos s.onTheWayBack with hnone | hsome
          · exact Or.inl (h.server_goes_on_of_reading hopen hblock hsent hphase hnone)
          · exact Or.inl (goes_on_of_reading hphase hsome)

/-- What is full holds the connection in both directions, and two bytes more. -/
theorem Full.le_length (h : Full sockets s) (hflows : Flows blocksize s)
    (hopen : s.closed = false) :
    sockets.toServer + sockets.toClient + 2 ≤ (bufs blocksize).length := by
  have hround := hflows.length_circulating hopen
  have hserver := List.length_pos_of_ne_nil h.server
  have hclient := List.length_pos_of_ne_nil h.client
  have hto := h.toServer
  have hback := h.toClient
  omega

/-! ## The way to a stall -/

/-- A session is reached. -/
def Reached (blocksize : ℤ) (sockets : Sockets) (s : Session) : Prop :=
  ∃ history, Reaches blocksize sockets history s

theorem Reached.step (h : Reached blocksize sockets s) {event : SessionEvent}
    (henabled : s.Enabled blocksize sockets event) (hstep : s.step blocksize event = .ok t) :
    Reached blocksize sockets t := by
  obtain ⟨history, hs⟩ := h
  exact ⟨history ++ [event], .event hs henabled hstep⟩

theorem length_take_drop_bufs {sent k : ℕ} (h : sent + k ≤ (bufs blocksize).length) :
    (((bufs blocksize).drop sent).take k).length = k := by
  rw [List.length_take, List.length_drop]
  omega

/-- The server reads one byte, and is in the write of it. -/
theorem Reached.serverRead (h : Reached blocksize sockets s) (hphase : s.server.phase = .reading)
    {c : UInt8} (hnext : [c] <+: s.toServer.drop s.server.read.length) :
    ∃ server, Reached blocksize sockets { s with server, serverSent := 0 } ∧
      server.phase = .writing 1 ∧ server.current = [c] ∧
      server.read = s.server.read ++ [c] ∧ server.writeFailed = s.server.writeFailed := by
  have henabled : GoPingPong.Enabled s.server (.read [c] none) :=
    ⟨hphase, Nat.one_le_two_pow⟩
  have hread : s.Enabled blocksize sockets (.serverRead [c] none) := by
    refine ⟨henabled, hnext, ?_⟩
    rw [if_pos rfl]
    exact List.cons_ne_nil _ _
  obtain ⟨buf, count, hbuf, hok⟩ := step_read henabled
  have hwriting : (s.server.afterRead [c] none buf count).phase = .writing 1 := rfl
  have hcurrent : (s.server.afterRead [c] none buf count).current = [c] := by
    rw [Loop.current, hwriting]
    exact hbuf
  refine ⟨_, h.step hread ?_, hwriting, hcurrent, rfl, rfl⟩
  simp only [Session.step, hok, AbortingRun.ok_bind]
  rfl

/-- The write of one byte passes it on and returns. -/
theorem Reached.serverWrite (h : Reached blocksize sockets s) {c : UInt8}
    (hphase : s.server.phase = .writing 1) (hcurrent : s.server.current = [c])
    (hsent : s.serverSent = 0) (hsucceeded : s.server.writeFailed = false)
    (hroom : s.onTheWayBack + 1 ≤ sockets.toClient) :
    Reached blocksize sockets { s with
      server := s.server.afterWrite 1 false
      serverSent := 0
      toClient := s.toClient ++ [c] } := by
  have hbytes : (s.server.current.drop s.serverSent).take 1 = [c] := by rw [hcurrent, hsent]; rfl
  have hpass : s.Enabled blocksize sockets (.serverPass 1) :=
    ⟨hsucceeded, Nat.one_pos, hroom, 1, hphase, by rw [hsent]⟩
  have hpassed : Reached blocksize sockets { s with
      serverSent := 1
      toClient := s.toClient ++ [c] } := by
    refine h.step hpass ?_
    rw [Session.step, hbytes, hsent]
  have henabled : GoPingPong.Enabled s.server (.wrote 1 false) :=
    ⟨1, Nat.one_le_two_pow, hphase, le_rfl, fun hlt => absurd hlt (Nat.lt_irrefl _)⟩
  refine hpassed.step (show Session.Enabled blocksize sockets _ (.serverReturn false) from
    ⟨henabled, fun hfalse => by cases hfalse⟩) ?_
  simp only [Session.step, step_wrote henabled, AbortingRun.ok_bind]
  rfl

/-- The loop reads one byte, and waits to write it. -/
theorem Reached.echoRead (h : Reached blocksize sockets s) (hphase : s.echo.phase = .reading)
    {c : UInt8} (hnext : [c] <+: s.toClient.drop s.echo.read.length) :
    ∃ echo, Reached blocksize sockets { s with echo } ∧ echo.phase = .waiting 1 ∧
      echo.read = s.echo.read ++ [c] := by
  have henabled : s.Enabled blocksize sockets (.echoRead [c] false) :=
    ⟨hphase, Nat.one_le_two_pow, hnext, List.cons_ne_nil _ _⟩
  have hroom : 0 + [c].length ≤ bufSize := Nat.one_le_two_pow
  obtain ⟨rbuf, hstore, -⟩ := s.echo.rbuf.store_of_fits hroom
  let echo : Echo :=
    { s.echo with phase := .waiting 1, rbuf, read := s.echo.read ++ [c] }
  refine ⟨echo, h.step henabled ?_, rfl, rfl⟩
  simp only [Session.step, hphase, hstore, AbortingRun.ok_bind]
  rfl

/-- The client passes on `k` bytes of the block. -/
theorem Reached.copyPass (h : Reached blocksize sockets s) {n k : ℕ} (hcopy : s.copy = .writing n)
    (hopen : s.closed = false) (hk : 0 < k) (hblock : n + k ≤ (bufs blocksize).length)
    (hroom : s.onTheWay + k ≤ sockets.toServer) :
    Reached blocksize sockets { s with
      copy := .writing (n + k)
      toServer := s.toServer ++ ((bufs blocksize).drop n).take k } := by
  have hsent : s.copy.sent = n := by rw [hcopy]; rfl
  have henabled : s.Enabled blocksize sockets (.copyPass k) :=
    ⟨hopen, by rw [hcopy]; rfl, hk, by rwa [hsent], hroom⟩
  refine h.step henabled ?_
  simp only [Session.step, hcopy]

/-- The client has written `n` bytes of the block one by one, and the server has sent each of
them back before it has read the next one. -/
structure Filling (n : ℕ) (s : Session) : Prop where
  copy : s.copy = .writing n
  server : s.server.phase = .reading
  toServer : s.toServer.length = n
  read : s.server.read.length = n
  toClient : s.toClient.length = n
  opened : s.closed = false
  succeeded : s.server.writeFailed = false

/-- The client has written `n` bytes, and the server is in the write of the last one. -/
structure HandedOver (n : ℕ) (s : Session) : Prop where
  copy : s.copy = .writing n
  server : s.server.phase = .writing 1
  current : ∃ c, s.server.current = [c]
  serverSent : s.serverSent = 0
  toServer : s.toServer.length = n
  read : s.server.read.length = n
  toClient : s.toClient.length + 1 = n
  opened : s.closed = false
  succeeded : s.server.writeFailed = false

/-- The client passes on a byte, and the server reads it. -/
theorem Filling.handOver {n : ℕ} (h : Filling n s) (hs : Reached blocksize sockets s)
    (hblock : n + 1 ≤ (bufs blocksize).length) :
    ∃ t, Reached blocksize sockets t ∧ HandedOver (n + 1) t ∧ t.toClient = s.toClient ∧
      t.echo = s.echo := by
  have hroom : s.onTheWay + 1 ≤ sockets.toServer := by
    have hpos := sockets.toServer_pos
    rw [onTheWay, h.toServer, h.read]
    omega
  have hpassed := hs.copyPass h.copy h.opened Nat.one_pos hblock hroom
  have hlength : (s.toServer ++ ((bufs blocksize).drop n).take 1).length = n + 1 := by
    rw [List.length_append, h.toServer, length_take_drop_bufs hblock]
  obtain ⟨c, hnext⟩ : ∃ c, [c] <+:
      (s.toServer ++ ((bufs blocksize).drop n).take 1).drop s.server.read.length :=
    exists_next (by rw [hlength, h.read]; omega)
  obtain ⟨server, ht, hphase, hcurrent, hread, hsucceeded⟩ := hpassed.serverRead h.server hnext
  refine ⟨_, ht, ⟨rfl, hphase, ⟨c, hcurrent⟩, rfl, hlength, ?_, ?_, h.opened, ?_⟩, rfl, rfl⟩
  · rw [hread, List.length_append]
    exact congrArg (· + 1) h.read
  · exact congrArg (· + 1) h.toClient
  · rw [hsucceeded]
    exact h.succeeded

/-- The server sends the byte back. -/
theorem HandedOver.sendBack {n : ℕ} (h : HandedOver n s) (hs : Reached blocksize sockets s)
    (hroom : s.onTheWayBack + 1 ≤ sockets.toClient) :
    ∃ t, Reached blocksize sockets t ∧ Filling n t ∧ t.echo = s.echo := by
  obtain ⟨c, hcurrent⟩ := h.current
  refine ⟨_, hs.serverWrite h.server hcurrent h.serverSent h.succeeded hroom,
    ⟨h.copy, rfl, h.toServer, h.read, ?_, h.opened, ?_⟩, rfl⟩
  · rw [List.length_append]
    exact h.toClient
  · show (s.server.writeFailed || false) = false
    rw [h.succeeded]
    rfl

/-- The client reads the first byte that has come back, and waits to write it. -/
theorem exists_filling_one (hblock : 1 ≤ (bufs blocksize).length) :
    ∃ s, Reached blocksize sockets s ∧ Filling 1 s ∧ s.echo.phase = .waiting 1 ∧
      s.echo.read.length = 1 := by
  have hne : bufs blocksize ≠ [] := List.ne_nil_of_length_pos hblock
  have hbegin : start.Enabled blocksize sockets .copyBegin := ⟨rfl, rfl⟩
  have hstart : Reached blocksize sockets { start with copy := .writing 0 } := by
    refine Reached.step ⟨[], .start⟩ hbegin ?_
    rw [Session.step, if_neg hne]
  have hfilling : Filling 0 { start with copy := .writing 0 } :=
    ⟨rfl, rfl, rfl, rfl, rfl, rfl, rfl⟩
  obtain ⟨u, hu, hhanded, hback, hecho⟩ := hfilling.handOver hstart hblock
  have hroom : u.onTheWayBack + 1 ≤ sockets.toClient := by
    rw [onTheWayBack, hback, hecho]
    exact sockets.toClient_pos
  obtain ⟨v, hv, hone, hecho'⟩ := hhanded.sendBack hu hroom
  have hechoStart : v.echo = start.echo := hecho'.trans hecho
  obtain ⟨c, hnext⟩ : ∃ c, [c] <+: v.toClient.drop v.echo.read.length := by
    refine exists_next ?_
    rw [hone.toClient, hechoStart]
    exact Nat.one_pos
  obtain ⟨echo, ht, hwaiting, hread⟩ := hv.echoRead (by rw [hechoStart]; rfl) hnext
  refine ⟨_, ht, ⟨hone.copy, hone.server, hone.toServer, hone.read, hone.toClient, hone.opened,
    hone.succeeded⟩, hwaiting, ?_⟩
  rw [hread, hechoStart]
  rfl

/-- The way back is filled byte by byte. -/
theorem exists_filling (n : ℕ) (hroom : n ≤ sockets.toClient)
    (hblock : n + 1 ≤ (bufs blocksize).length) :
    ∃ s, Reached blocksize sockets s ∧ Filling (n + 1) s ∧ s.echo.phase = .waiting 1 ∧
      s.echo.read.length = 1 := by
  induction n with
  | zero => exact exists_filling_one hblock
  | succ n ih =>
      obtain ⟨s, hs, hfilling, hwaiting, hread⟩ := ih (by omega) (by omega)
      obtain ⟨u, hu, hhanded, hback, hecho⟩ := hfilling.handOver hs (by omega)
      have hbackRoom : u.onTheWayBack + 1 ≤ sockets.toClient := by
        rw [onTheWayBack, hback, hecho, hfilling.toClient, hread]
        omega
      obtain ⟨t, ht, hfilling', hecho'⟩ := hhanded.sendBack hu hbackRoom
      have hsame : t.echo = s.echo := hecho'.trans hecho
      exact ⟨t, ht, hfilling', by rw [hsame, hwaiting], by rw [hsame, hread]⟩

/-! ## The stall -/

/-- Everything is full: neither the server nor the client can pass on a byte, and the server
has one that it has to pass on before it reads. -/
structure Blocked (sockets : Sockets) (s : Session) : Prop where
  toServer : s.onTheWay = sockets.toServer
  toClient : s.onTheWayBack = sockets.toClient
  server : s.server.phase = .writing 1
  serverSent : s.serverSent = 0
  opened : s.closed = false

/-- The client has a byte that it has to pass on before it reads, and waits for the copy, which
has not been made; or it is in the write of that byte. -/
def EchoBlocked (blocksize : ℤ) (s : Session) : Prop :=
  (s.echo.phase = .waiting 1 ∧ ∃ n, s.copy = .writing n ∧ n ≠ (bufs blocksize).length) ∨
    (s.echo.phase = .writing 1 0 ∧ ∃ wc err, s.copy = .returned wc err)

theorem Blocked.stalled (h : Blocked sockets s) (hecho : EchoBlocked blocksize s) :
    s.Stalled blocksize sockets := by
  rintro event hclose henabled
  cases event with
  | copyBegin =>
      rcases hecho with ⟨-, n, hcopy, -⟩ | ⟨-, wc, err, hcopy⟩ <;>
        cases hcopy.symm.trans henabled.1
  | copyPass k =>
      obtain ⟨-, -, hk, -, hroom⟩ := henabled
      rw [h.toServer] at hroom
      omega
  | copyReturn err =>
      obtain ⟨hwriting, hall⟩ := henabled
      rcases hecho with ⟨-, n, hcopy, hne⟩ | ⟨-, wc, err, hcopy⟩
      · rw [hcopy] at hall
        cases err with
        | true => exact absurd (h.opened.symm.trans hall) (by decide)
        | false => exact hne hall
      · rw [hcopy] at hwriting
        cases hwriting
  | echoRead data err =>
      rcases hecho with ⟨hphase, -⟩ | ⟨hphase, -⟩ <;> cases hphase.symm.trans henabled.1
  | echoBegin =>
      obtain ⟨⟨rc, hwaiting⟩, hfree⟩ := henabled
      rcases hecho with ⟨-, n, hcopy, -⟩ | ⟨hphase, -⟩
      · rw [hcopy] at hfree
        cases hfree
      · cases hphase.symm.trans hwaiting
  | echoPass k =>
      obtain ⟨-, hk, hroom, -⟩ := henabled
      rw [h.toServer] at hroom
      omega
  | echoReturn err =>
      obtain ⟨rc, sent, hwriting, hall⟩ := henabled
      rcases hecho with ⟨hphase, -⟩ | ⟨hphase, -⟩ <;> cases hphase.symm.trans hwriting
      cases err with
      | true => exact absurd (h.opened.symm.trans hall) (by decide)
      | false => cases hall
  | serverRead data err => cases h.server.symm.trans henabled.1.1
  | serverPass k =>
      obtain ⟨-, hk, hroom, -⟩ := henabled
      rw [h.toClient] at hroom
      omega
  | serverReturn err =>
      obtain ⟨⟨c, -, hphase, -, hshort⟩, herr⟩ := henabled
      cases h.server.symm.trans hphase
      rw [h.serverSent] at hshort
      exact absurd (h.opened.symm.trans (herr (hshort Nat.one_pos))) (by decide)
  | close => exact hclose rfl

/-- A copy that has been made returns, and the loop begins its write. -/
theorem Blocked.exists_stalled (h : Blocked sockets s) (hs : Reached blocksize sockets s)
    {n : ℕ} (hcopy : s.copy = .writing n) (hwaiting : s.echo.phase = .waiting 1) :
    ∃ t, Reached blocksize sockets t ∧ t.closed = false ∧ t.Stalled blocksize sockets := by
  have hsent : s.copy.sent = n := by rw [hcopy]; rfl
  by_cases hall : n = (bufs blocksize).length
  · have hreturn : s.Enabled blocksize sockets (.copyReturn false) :=
      ⟨by rw [hcopy]; rfl, hsent.trans hall⟩
    have hreturned : Reached blocksize sockets { s with copy := .returned n false } := by
      refine hs.step hreturn ?_
      simp only [Session.step, hcopy]
    have hbegin : Session.Enabled blocksize sockets { s with copy := .returned n false }
        .echoBegin := ⟨⟨1, hwaiting⟩, rfl⟩
    have hbegun : Reached blocksize sockets { s with
        copy := .returned n false
        echo := { s.echo with phase := .writing 1 0 } } := by
      refine hreturned.step hbegin ?_
      simp only [Session.step, hwaiting]
    have hblocked : Blocked sockets { s with
        copy := .returned n false
        echo := { s.echo with phase := .writing 1 0 } } :=
      ⟨h.toServer, h.toClient, h.server, h.serverSent, h.opened⟩
    exact ⟨_, hbegun, h.opened, hblocked.stalled (Or.inr ⟨rfl, n, false, rfl⟩)⟩
  · exact ⟨s, hs, h.opened, h.stalled (Or.inl ⟨hwaiting, n, hcopy, hall⟩)⟩

/-- A block that is large enough fills everything. -/
theorem exists_blocked
    (hblock : sockets.toServer + sockets.toClient + 2 ≤ (bufs blocksize).length) :
    ∃ s n, Reached blocksize sockets s ∧ Blocked sockets s ∧ s.copy = .writing n ∧
      s.echo.phase = .waiting 1 := by
  have hfill : sockets.toClient + 1 ≤ (bufs blocksize).length := by omega
  obtain ⟨s, hs, hfilling, hwaiting, hread⟩ := exists_filling sockets.toClient le_rfl hfill
  obtain ⟨t, ht, hhanded, hback, hecho⟩ := hfilling.handOver hs (by omega)
  have hnone : t.onTheWay = 0 := by rw [onTheWay, hhanded.toServer, hhanded.read, Nat.sub_self]
  have hfull : t.onTheWayBack = sockets.toClient := by
    rw [onTheWayBack, hback, hecho, hfilling.toClient, hread, Nat.add_sub_cancel]
  -- what is still to be written fills the way to the server
  have hrest : sockets.toClient + 1 + 1 + sockets.toServer ≤ (bufs blocksize).length := by omega
  have hu := ht.copyPass hhanded.copy hhanded.opened sockets.toServer_pos hrest (by omega)
  refine ⟨_, _, hu, ⟨?_, hfull, hhanded.server, hhanded.serverSent, hhanded.opened⟩, rfl, ?_⟩
  · rw [onTheWay]
    dsimp only
    rw [List.length_append, length_take_drop_bufs hrest, hhanded.toServer, hhanded.read,
      Nat.add_sub_cancel_left]
  · exact (congrArg Echo.phase hecho).trans hwaiting

/-- **The programs can come to wait for each other exactly when the block does not fit**: when
it is larger, by two bytes or more, than what the connection holds in both directions. -/
theorem stalls_iff (hblock : 0 < blocksize) :
    (∃ history s, Reaches blocksize sockets history s ∧ s.closed = false ∧
      s.Stalled blocksize sockets) ↔
      (sockets.toServer : ℤ) + sockets.toClient + 2 ≤ blocksize := by
  have hlength : (bufs blocksize).length = blocksize.toNat := by
    rw [bufs, List.length_map, List.length_range]
  constructor
  · rintro ⟨history, s, hs, hopen, hstalled⟩
    have hne : bufs blocksize ≠ [] := List.ne_nil_of_length_pos (by omega)
    rcases hs.flows.goes_on_or_full hopen hne with ⟨event, hclose, henabled⟩ | hfull
    · exact absurd henabled (hstalled event hclose)
    · have hle := hfull.le_length hs.flows hopen
      omega
  · intro hle
    have hfit : sockets.toServer + sockets.toClient + 2 ≤ (bufs blocksize).length := by omega
    obtain ⟨s, n, hs, hblocked, hcopy, hwaiting⟩ := exists_blocked hfit
    obtain ⟨t, ⟨history, ht⟩, hopen, hstalled⟩ := hblocked.exists_stalled hs hcopy hwaiting
    exact ⟨history, t, ht, hopen, hstalled⟩

/-- A block of ten bytes on a connection that holds four in each direction. -/
theorem stalls_tenBytes : (0 : ℤ) < 10 ∧
    ∃ history s, Reaches 10 fourEach history s ∧ s.closed = false ∧ s.Stalled 10 fourEach :=
  ⟨by decide, (stalls_iff (by decide)).mpr (by decide)⟩

end Session

end LearnUv.GoPingPong
