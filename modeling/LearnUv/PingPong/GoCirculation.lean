import LearnUv.PingPong.GoClient
import LearnUv.Library.Circulation

/-!
# What the Go programs of `pingpong` do together

One block circulates between the two programs: nothing is lost, doubled or changed in order.
The client writes the block once, and then only what has come back; the server writes back
what it reads.  So the bytes that are under way, read in the order in which they come round,
are always the block, turned by as many places as have come round.

The invariant `Flows` says of each of the parties that it has passed on what it has read, in
that order, and of the two goroutines of the client that they do not write at the same time:
the loop has nothing to write before the copy has been made.  A rotation is then a matter of
words, and is left to `Circulation`.

## Main Definitions

* `Flows` — the invariant of a connection
* `Circulates` — what holds of the bytes on it

## Main Results

* `circulates_of_reaches` — a rotation of the block circulates, and what is written repeats it
-/

namespace LearnUv.GoPingPong

open Circulation (repeated)

/-! ## The loop over `rbuf` -/

namespace Echo

/-- The loop passes on what it has read. -/
structure Ok (e : Echo) : Prop where
  held : e.phase ≠ .ended → e.passed ++ e.held = e.read
  passed : e.passed <+: e.read
  waiting : ∀ rc, e.phase = .waiting rc → 0 < rc ∧ rc ≤ bufSize
  writing : ∀ rc sent, e.phase = .writing rc sent → sent ≤ rc ∧ rc ≤ bufSize

variable {e : Echo}

/-- After a read. -/
theorem Ok.read (h : e.Ok) (hphase : e.phase = .reading) {data : List UInt8} {err : Bool}
    (herr : if err then data = [] else data ≠ []) {rbuf : CharArray bufSize}
    (hrbuf : rbuf.bytes.take data.length = data) :
    Ok { e with
      phase := if err then .ended else .waiting data.length
      rbuf
      read := e.read ++ data } := by
  have hall : e.passed = e.read := by
    rw [← h.held (by simp [hphase]), Echo.held, hphase, List.append_nil]
  cases err with
  | true => exact ⟨fun hne => absurd rfl hne, hall ▸ List.prefix_append _ _, by simp, by simp⟩
  | false =>
      have hpos := List.length_pos_of_ne_nil (show data ≠ [] from herr)
      have hsize : data.length ≤ bufSize := by
        rw [← hrbuf]
        exact (List.length_take_le' _ _).trans rbuf.length_eq.le
      have hwaiting : ∀ rc, EchoPhase.waiting data.length = .waiting rc →
          0 < rc ∧ rc ≤ bufSize := by
        rintro rc heq
        cases heq
        exact ⟨hpos, hsize⟩
      refine ⟨fun _ => ?_, hall ▸ List.prefix_append _ _, hwaiting, by simp⟩
      show e.passed ++ rbuf.bytes.take data.length = e.read ++ data
      rw [hrbuf, hall]

/-- When the write may begin. -/
theorem Ok.begin (h : e.Ok) {rc : ℕ} (hphase : e.phase = .waiting rc) :
    Ok { e with phase := .writing rc 0 } := by
  have hheld := h.held (by simp [hphase])
  rw [Echo.held, hphase] at hheld
  refine ⟨fun _ => hheld, h.passed, by simp, ?_⟩
  intro rc' sent heq
  cases heq
  exact ⟨Nat.zero_le _, (h.waiting rc hphase).2⟩

/-- When the write passes something on. -/
theorem Ok.pass (h : e.Ok) {rc sent k : ℕ} (hphase : e.phase = .writing rc sent)
    (hk : sent + k ≤ rc) :
    Ok { e with
      phase := .writing rc (sent + k)
      passed := e.passed ++ ((e.rbuf.bytes.take rc).drop sent).take k } := by
  have hheld := h.held (by simp [hphase])
  rw [Echo.held, hphase] at hheld
  have hrest : ((e.rbuf.bytes.take rc).drop sent).take k ++
      (e.rbuf.bytes.take rc).drop (sent + k) = (e.rbuf.bytes.take rc).drop sent := by
    rw [← List.drop_drop, List.take_append_drop]
  refine ⟨fun _ => ?_, ?_, by simp, ?_⟩
  · rw [List.append_assoc]
    show e.passed ++ (_ ++ (e.rbuf.bytes.take rc).drop (sent + k)) = e.read
    rw [hrest]
    exact hheld
  · refine ⟨(e.rbuf.bytes.take rc).drop (sent + k), ?_⟩
    rw [List.append_assoc, hrest]
    exact hheld
  · intro rc' sent' heq
    cases heq
    exact ⟨hk, (h.writing rc sent hphase).2⟩

/-- When the write returns. -/
theorem Ok.return (h : e.Ok) {rc sent : ℕ} {err : Bool} (hphase : e.phase = .writing rc sent)
    (hall : err = false → sent = rc) :
    Ok { e with phase := if err then .ended else .reading } := by
  cases err with
  | true => exact ⟨fun hne => absurd rfl hne, h.passed, by simp, by simp⟩
  | false =>
      refine ⟨fun _ => ?_, h.passed, by simp, by simp⟩
      have hheld := h.held (by simp [hphase])
      rw [Echo.held, hphase, hall rfl] at hheld
      change e.passed ++ (e.rbuf.bytes.take rc).drop rc = e.read at hheld
      rwa [List.drop_eq_nil_of_le (List.length_take_le _ _)] at hheld

end Echo

/-! ## The server -/

/-- The server has passed on what its writes have accepted, and a part of the write it
is in. -/
structure ServerOk (server : Loop) (sent : ℕ) (out : List UInt8) : Prop where
  faithful : ∃ earlier, Faithful server earlier
  out : out = server.accepted ++ server.current.take sent
  sent_le : sent ≤ server.current.length
  failed : server.writeFailed = true → sent = 0

namespace ServerOk

variable {server : Loop} {sent : ℕ} {out : List UInt8}

/-- What it has passed on, it has read. -/
theorem prefix_read (h : ServerOk server sent out) : out <+: server.read := by
  obtain ⟨earlier, hfaithful⟩ := h.faithful
  by_cases hfailed : server.writeFailed = true
  · rw [h.out, h.failed hfailed, List.take_zero, List.append_nil, hfaithful.read]
    exact hfaithful.accepted.trans (List.prefix_append _ _)
  · rw [h.out, hfaithful.complete (Bool.eq_false_of_not_eq_true hfailed), hfaithful.read]
    exact (List.prefix_append_right_inj _).mpr (List.take_prefix _ _)

/-- What it has read and not passed on, it holds. -/
theorem append_held (h : ServerOk server sent out) (hfailed : server.writeFailed = false) :
    out ++ server.current.drop sent = server.read := by
  obtain ⟨earlier, hfaithful⟩ := h.faithful
  rw [h.out, List.append_assoc, List.take_append_drop, hfaithful.read,
    hfaithful.complete hfailed]

/-- A part of the write is passed on. -/
theorem pass (h : ServerOk server sent out) (hfailed : server.writeFailed = false) {c k : ℕ}
    (hphase : server.phase = .writing c) (hk : sent + k ≤ c) :
    ServerOk server (sent + k) (out ++ (server.current.drop sent).take k) where
  faithful := h.faithful
  sent_le := by
    obtain ⟨earlier, hfaithful⟩ := h.faithful
    rwa [hfaithful.length_current c hphase]
  out := by rw [h.out, List.append_assoc, ← List.take_add]
  failed := fun hwrite => absurd (hfailed.symm.trans hwrite) (by decide)

/-- After a read, or at the end. -/
theorem afterRead (h : ServerOk server sent out) {data : List UInt8} {err : Option ReadError}
    (henabled : Enabled server (.read data err)) (herr : err ≠ none → data = []) {t : Loop}
    (hstep : step server (.read data err) = .ok t) :
    ServerOk t 0 out ∧ t.read = server.read ++ data ∧
      (t.writeFailed = server.writeFailed) ∧ t.phase = .afterRead data.length err := by
  obtain ⟨earlier, hfaithful⟩ := h.faithful
  obtain ⟨buf, count, hbuf, hok⟩ := step_read henabled
  obtain rfl := AbortingRun.ok_unique hok hstep
  have hend : err = some .eof → data = [] ∨ server.writeFailed = true :=
    fun heof => Or.inl (herr (by rw [heof]; simp))
  refine ⟨⟨hfaithful.afterRead henabled.1 count hbuf hend, ?_, Nat.zero_le _,
    fun _ => rfl⟩, rfl, rfl, rfl⟩
  rw [h.out, Loop.current_of_reading henabled.1, List.take_nil, List.take_zero]
  rfl

/-- After a write. -/
theorem afterWrite (h : ServerOk server sent out) {err : Bool}
    (henabled : Enabled server (.wrote sent err)) {t : Loop}
    (hstep : step server (.wrote sent err) = .ok t) :
    ServerOk t 0 out ∧ t.read = server.read ∧
      (t.writeFailed = (server.writeFailed || err)) ∧ t.phase = .reading := by
  obtain ⟨earlier, hfaithful⟩ := h.faithful
  obtain rfl := AbortingRun.ok_unique (step_wrote henabled) hstep
  have hnext : server.accepted ++ server.current.take sent <+: server.read := by
    rw [← h.out]
    exact h.prefix_read
  refine ⟨⟨⟨_, hfaithful.afterWrite henabled hnext⟩, ?_, Nat.zero_le _, fun _ => rfl⟩, rfl, rfl,
    rfl⟩
  rw [h.out, List.take_zero, List.append_nil]
  rfl

end ServerOk

/-! ## The connection -/

namespace Session

variable {blocksize : ℤ} {sockets : Sockets}

/-- The invariant of a connection. -/
structure Flows (blocksize : ℤ) (s : Session) : Prop where
  copied : s.copy.sent ≤ (bufs blocksize).length
  /-- The client has written what was copied, and then what came back. -/
  toServer : s.toServer = (bufs blocksize).take s.copy.sent ++ s.echo.passed
  /-- Nothing comes back into the copy, and nothing at all without a block. -/
  passed : s.echo.passed ≠ [] → bufs blocksize ≠ [] ∧ s.copy.sent = (bufs blocksize).length
  echo : s.echo.Ok
  server : ServerOk s.server s.serverSent s.toClient
  echoRead : s.echo.read <+: s.toClient
  serverRead : s.server.read <+: s.toServer
  /-- Only one of the goroutines is in a write. -/
  lock : s.copy.isWriting = true → s.echo.phase.isWriting = false
  returned : ∀ wc err, s.copy = .returned wc err → s.closed = false →
    wc = (bufs blocksize).length
  /-- What is over before the connection is closed has not failed. -/
  running : s.closed = false → s.echo.phase ≠ .ended ∧ s.server.writeFailed = false ∧
    ∀ b, s.server.phase ≠ .ended b

theorem flows_start : Flows blocksize start where
  copied := Nat.zero_le _
  toServer := rfl
  passed := fun hne => absurd rfl hne
  echo := ⟨fun _ => rfl, List.prefix_rfl, by simp [start], by simp [start]⟩
  server :=
    { faithful := ⟨[], rfl, List.prefix_rfl, fun _ => rfl, fun c hc => by cases hc⟩
      out := rfl
      sent_le := Nat.zero_le _
      failed := fun _ => rfl }
  echoRead := List.prefix_rfl
  serverRead := List.prefix_rfl
  lock := fun h => absurd h (by decide)
  returned := fun wc err h => by cases h
  running := fun _ => ⟨by decide, rfl, fun b => by simp [start, GoPingPong.start]⟩

namespace Flows

variable {s : Session}

/-- What the client writes again, it has written. -/
theorem passed_prefix (h : Flows blocksize s) : s.echo.passed <+: s.toServer :=
  h.echo.passed.trans (h.echoRead.trans (h.server.prefix_read.trans h.serverRead))

/-- While the copy has not been made, nothing has been written. -/
theorem eq_nil_of_ready (h : Flows blocksize s) (hready : s.copy = .ready) :
    s.toServer = [] := by
  have hpassed : s.echo.passed = [] := by
    by_contra hne
    obtain ⟨hblock, hall⟩ := h.passed hne
    rw [hready] at hall
    exact hblock (List.length_eq_zero_iff.mp hall.symm)
  rw [h.toServer, hready, hpassed, Copy.sent, List.take_zero]
  rfl

/-- When the client writes something again while the connection is open, the block has been
written. -/
theorem copied_of_held (h : Flows blocksize s) (hopen : s.closed = false)
    (hfree : s.copy.isWriting = false) (hheld : s.echo.read ≠ []) :
    bufs blocksize ≠ [] ∧ s.copy.sent = (bufs blocksize).length := by
  have hwritten : s.toServer ≠ [] := by
    intro hnil
    have hread := (h.echoRead.trans (h.server.prefix_read.trans h.serverRead))
    rw [hnil] at hread
    exact hheld (List.prefix_nil.mp hread)
  cases hcopy : s.copy with
  | ready => exact absurd (h.eq_nil_of_ready hcopy) hwritten
  | writing sent => rw [hcopy] at hfree; cases hfree
  | returned wc err =>
      have hall := h.returned wc err hcopy hopen
      refine ⟨?_, hall⟩
      intro hblock
      by_cases hpassed : s.echo.passed = []
      · refine hwritten ?_
        rw [h.toServer, hpassed, hblock, List.take_nil]
        rfl
      · exact (h.passed hpassed).1 hblock

/-- **What is under way**: what has come round and what circulates are the block and what
has come round. -/
theorem passed_append_circulating (h : Flows blocksize s) (hopen : s.closed = false) :
    s.echo.passed ++ s.circulating blocksize = bufs blocksize ++ s.echo.passed := by
  obtain ⟨hended, hfailed, -⟩ := h.running hopen
  have hround : s.echo.passed ++ s.circulating blocksize =
      s.toServer ++ (bufs blocksize).drop s.copy.sent := by
    obtain ⟨later, hlater⟩ := h.echoRead
    obtain ⟨coming, hcoming⟩ := h.serverRead
    rw [circulating, ← List.append_assoc, ← List.append_assoc, ← List.append_assoc,
      ← List.append_assoc, h.echo.held hended, ← hlater, List.drop_left, hlater, serverHeld,
      h.server.append_held hfailed, ← hcoming, List.drop_left]
  rw [hround, h.toServer]
  by_cases hpassed : s.echo.passed = []
  · rw [hpassed, List.append_nil, List.append_nil, List.take_append_drop]
  · rw [(h.passed hpassed).2, List.take_length, List.drop_length, List.append_nil]

/-! ### The copy -/

theorem copyBegin (h : Flows blocksize s) (henabled : s.Enabled blocksize sockets .copyBegin) :
    Flows blocksize { s with
      copy := if bufs blocksize = [] then .returned 0 false else .writing 0 } := by
  obtain ⟨hready, hfree⟩ := henabled
  have hzero : s.copy.sent = 0 := by rw [hready]; rfl
  have hsent : Copy.sent (if bufs blocksize = [] then .returned 0 false else .writing 0) =
      s.copy.sent := by
    rw [hzero]
    split <;> rfl
  refine
    { h with
      copied := hsent ▸ h.copied
      toServer := hsent ▸ h.toServer
      passed := fun hne => hsent ▸ h.passed hne
      lock := fun _ => hfree
      returned := ?_ }
  intro wc err heq hopen
  dsimp only at heq
  split at heq
  · next hnil =>
      cases heq
      rw [hnil]
      rfl
  · cases heq

theorem copyPass (h : Flows blocksize s) {k : ℕ}
    (henabled : s.Enabled blocksize sockets (.copyPass k)) {sent : ℕ}
    (hcopy : s.copy = .writing sent) :
    Flows blocksize { s with
      copy := .writing (sent + k)
      toServer := s.toServer ++ ((bufs blocksize).drop sent).take k } := by
  obtain ⟨hopen, hwriting, hk, hroom, -⟩ := henabled
  have hsent : s.copy.sent = sent := by rw [hcopy]; rfl
  rw [hsent] at hroom
  -- nothing has come back while the copy has something to write
  have hpassed : s.echo.passed = [] := by
    by_contra hne
    have hall := (h.passed hne).2
    omega
  refine
    { h with
      copied := hroom
      toServer := ?_
      passed := fun hne => absurd hpassed hne
      serverRead := h.serverRead.trans (List.prefix_append _ _)
      lock := fun _ => h.lock hwriting
      returned := fun wc err heq => by cases heq }
  show s.toServer ++ _ = (bufs blocksize).take (sent + k) ++ s.echo.passed
  rw [h.toServer, hsent, hpassed, List.append_nil, List.append_nil, List.take_add]

theorem copyReturn (h : Flows blocksize s) {err : Bool}
    (henabled : s.Enabled blocksize sockets (.copyReturn err)) {sent : ℕ}
    (hcopy : s.copy = .writing sent) : Flows blocksize { s with copy := .returned sent err } := by
  have hsent : s.copy.sent = sent := by rw [hcopy]; rfl
  refine
    { h with
      copied := hsent ▸ h.copied
      toServer := hsent ▸ h.toServer
      passed := fun hne => hsent ▸ h.passed hne
      lock := fun hwriting => by cases hwriting
      returned := ?_ }
  intro wc err' heq hopen
  cases heq
  have hall := henabled.2
  cases err with
  | true => exact absurd (hopen.symm.trans hall) (by decide)
  | false => exact hsent ▸ hall

/-! ### The loop -/

/-- A step of the loop that passes nothing on. -/
theorem echoQuiet (h : Flows blocksize s) {e : Echo} (hpassed : e.passed = s.echo.passed)
    (hok : e.Ok) (hread : e.read <+: s.toClient)
    (hlock : s.copy.isWriting = true → e.phase.isWriting = false)
    (hended : s.closed = false → e.phase ≠ .ended) : Flows blocksize { s with echo := e } :=
  { h with
    toServer := by
      show s.toServer = _ ++ e.passed
      rw [hpassed]
      exact h.toServer
    passed := fun hne => h.passed (by rw [← hpassed]; exact hne)
    echo := hok
    echoRead := hread
    lock := hlock
    running := fun hopen => ⟨hended hopen, (h.running hopen).2⟩ }

theorem echoRead_step (h : Flows blocksize s) {data : List UInt8} {err : Bool}
    (henabled : s.Enabled blocksize sockets (.echoRead data err)) {t : Session}
    (hstep : s.step blocksize (.echoRead data err) = .ok t) : Flows blocksize t := by
  obtain ⟨hphase, hsize, hnext, herr⟩ := henabled
  obtain ⟨rbuf, hstore, hbytes⟩ :=
    s.echo.rbuf.store_of_fits (show 0 + data.length ≤ bufSize by omega)
  simp only [Session.step, hphase, hstore, AbortingRun.ok_bind] at hstep
  cases hstep
  have hrbuf : rbuf.bytes.take data.length = data := by rw [hbytes, take_overwrite_zero]
  have hdata : if err then data = [] else data ≠ [] := by
    cases err with
    | true => exact herr.1
    | false => exact herr
  refine h.echoQuiet rfl (h.echo.read hphase hdata hrbuf) ?_ ?_ ?_
  · obtain ⟨later, hlater⟩ := h.echoRead
    rw [← hlater, List.drop_left] at hnext
    rw [← hlater]
    exact (List.prefix_append_right_inj _).mpr hnext
  · intro _
    cases err <;> rfl
  · intro hopen
    cases err with
    | true => exact absurd (hopen.symm.trans herr.2) (by decide)
    | false => exact EchoPhase.noConfusion

theorem echoPass_step (h : Flows blocksize s) {k : ℕ}
    (henabled : s.Enabled blocksize sockets (.echoPass k)) {t : Session}
    (hstep : s.step blocksize (.echoPass k) = .ok t) : Flows blocksize t := by
  obtain ⟨hopen, hk, -, rc, sent, hphase, hroom⟩ := henabled
  simp only [Session.step, hphase] at hstep
  cases hstep
  have hfree : s.copy.isWriting = false := by
    by_contra hwriting
    have hlock := h.lock (Bool.eq_true_of_not_eq_false hwriting)
    rw [hphase] at hlock
    cases hlock
  have hok := h.echo.pass hphase hroom
  refine
    { h with
      toServer := ?_
      passed := ?_
      echo := hok
      echoRead := h.echoRead
      serverRead := h.serverRead.trans (List.prefix_append _ _)
      lock := fun hwriting => absurd (hfree.symm.trans hwriting) (by decide)
      running := fun hopen => ⟨EchoPhase.noConfusion, (h.running hopen).2⟩ }
  · show s.toServer ++ _ = _ ++ (s.echo.passed ++ _)
    rw [h.toServer, List.append_assoc]
  · intro hne
    refine h.copied_of_held hopen hfree fun hnil => hne ?_
    have hprefix := hok.passed
    rw [hnil] at hprefix
    exact List.prefix_nil.mp hprefix

/-! ### The server -/

theorem serverRead_step (h : Flows blocksize s) {data : List UInt8} {err : Option ReadError}
    (henabled : s.Enabled blocksize sockets (.serverRead data err)) {t : Session}
    (hstep : s.step blocksize (.serverRead data err) = .ok t) : Flows blocksize t := by
  obtain ⟨hserver, hnext, herr⟩ := henabled
  obtain ⟨server, hread, ht⟩ := AbortingRun.bind_eq_ok.mp hstep
  cases ht
  have hempty : err ≠ none → data = [] := fun hne => (if_neg hne ▸ herr : _ ∧ _).1
  obtain ⟨hok, hdata, hfailed, hphase⟩ := h.server.afterRead hserver hempty hread
  refine
    { h with
      server := hok
      serverRead := ?_
      running := ?_ }
  · obtain ⟨coming, hcoming⟩ := h.serverRead
    show server.read <+: s.toServer
    rw [← hcoming, List.drop_left] at hnext
    rw [hdata, ← hcoming]
    exact (List.prefix_append_right_inj _).mpr hnext
  · intro hopen
    obtain ⟨hended, hfailed', -⟩ := h.running hopen
    refine ⟨hended, hfailed.trans hfailed', ?_⟩
    intro b hb
    -- while the connection is open, a read returns bytes, and the loop goes on
    by_cases hnone : err = none
    · rw [if_pos hnone] at herr
      have hpos := List.length_pos_of_ne_nil herr
      rw [hphase, hnone, Phase.afterRead, if_neg (by simp), if_neg (by omega)] at hb
      cases hb
    · rw [if_neg hnone] at herr
      exact absurd (hopen.symm.trans herr.2) (by decide)

theorem serverReturn_step (h : Flows blocksize s) {err : Bool}
    (henabled : s.Enabled blocksize sockets (.serverReturn err)) {t : Session}
    (hstep : s.step blocksize (.serverReturn err) = .ok t) : Flows blocksize t := by
  obtain ⟨hserver, herr⟩ := henabled
  obtain ⟨server, hwrite, ht⟩ := AbortingRun.bind_eq_ok.mp hstep
  cases ht
  obtain ⟨hok, hread, hfailed, hphase⟩ := h.server.afterWrite hserver hwrite
  refine
    { h with
      server := hok
      serverRead := ?_
      running := ?_ }
  · show server.read <+: s.toServer
    rw [hread]
    exact h.serverRead
  · intro hopen
    obtain ⟨hended, hfailed', -⟩ := h.running hopen
    have herr' : err = false := by
      by_contra hne
      exact absurd (hopen.symm.trans (herr (Bool.eq_true_of_not_eq_false hne))) (by decide)
    refine ⟨hended, by rw [hfailed, hfailed', herr']; rfl, ?_⟩
    intro b hb
    rw [hphase] at hb
    cases hb

/-- **The step of the invariant.** -/
theorem step (h : Flows blocksize s) {event : SessionEvent}
    (henabled : s.Enabled blocksize sockets event) {t : Session}
    (hstep : s.step blocksize event = .ok t) : Flows blocksize t := by
  cases event with
  | copyBegin =>
      cases hstep
      exact h.copyBegin henabled
  | copyPass k =>
      cases hcopy : s.copy with
      | writing sent =>
          simp only [Session.step, hcopy] at hstep
          cases hstep
          exact h.copyPass henabled hcopy
      | _ => have hwriting := henabled.2.1; rw [hcopy] at hwriting; cases hwriting
  | copyReturn err =>
      cases hcopy : s.copy with
      | writing sent =>
          simp only [Session.step, hcopy] at hstep
          cases hstep
          exact h.copyReturn henabled hcopy
      | _ => have hwriting := henabled.1; rw [hcopy] at hwriting; cases hwriting
  | echoRead data err => exact h.echoRead_step henabled hstep
  | echoBegin =>
      obtain ⟨⟨rc, hphase⟩, hfree⟩ := henabled
      simp only [Session.step, hphase] at hstep
      cases hstep
      refine h.echoQuiet rfl (h.echo.begin hphase) h.echoRead ?_ fun _ => EchoPhase.noConfusion
      exact fun hwriting => absurd (hfree.symm.trans hwriting) (by decide)
  | echoPass k => exact h.echoPass_step henabled hstep
  | echoReturn err =>
      obtain ⟨rc, sent, hphase, hall⟩ := henabled
      simp only [Session.step, hphase] at hstep
      cases hstep
      have hreturn : err = false → sent = rc := by
        rintro rfl
        exact hall
      refine h.echoQuiet rfl (h.echo.return hphase hreturn) h.echoRead ?_ ?_
      · intro _
        cases err <;> rfl
      · intro hopen
        cases err with
        | true => exact absurd (hopen.symm.trans hall) (by decide)
        | false => exact EchoPhase.noConfusion
  | serverRead data err => exact h.serverRead_step henabled hstep
  | serverPass k =>
      cases hstep
      obtain ⟨hfailed, -, -, c, hphase, hroom⟩ := henabled
      exact
        { h with
          server := h.server.pass hfailed hphase hroom
          echoRead := h.echoRead.trans (List.prefix_append _ _) }
  | serverReturn err => exact h.serverReturn_step henabled hstep
  | close =>
      cases hstep
      exact
        { h with
          returned := fun wc err _ hopen => by cases hopen
          running := fun hopen => by cases hopen }

end Flows

/-- Every state a connection reaches satisfies the invariant. -/
theorem Reaches.flows {history : List SessionEvent} {s : Session}
    (h : Reaches blocksize sockets history s) : Flows blocksize s :=
  AbortingRun.Reaches.invariant h flows_start fun _ _ _ hflows henabled hstep =>
    hflows.step henabled hstep

/-! ## What circulates -/

/-- What is on a connection: as long as it is open, a rotation of the block is under way;
what the client has written repeats the block; and each side reads the beginning of what the
other one has written, and the server has written the beginning of what the client has. -/
structure Circulates (blocksize : ℤ) (s : Session) : Prop where
  rotation : s.closed = false → s.circulating blocksize ~r bufs blocksize
  written : ∃ n, s.toServer <+: repeated (bufs blocksize) n
  answered : s.toClient <+: s.toServer
  serverRead : s.server.read <+: s.toServer
  clientRead : s.echo.read <+: s.toClient

/-- **One block circulates**, in every state a connection reaches. -/
theorem circulates_of_reaches {history : List SessionEvent} {s : Session}
    (h : Reaches blocksize sockets history s) : Circulates blocksize s where
  rotation := fun hopen =>
    Circulation.isRotated_of_append_eq (h.flows.passed_append_circulating hopen)
  written := by
    have hflows := h.flows
    by_cases hpassed : s.echo.passed = []
    · refine ⟨1, ?_⟩
      rw [hflows.toServer, hpassed, List.append_nil, Circulation.repeated_succ]
      exact (List.take_prefix _ _).trans (List.prefix_append _ _)
    · obtain ⟨hblock, hall⟩ := hflows.passed hpassed
      have hwritten : s.toServer = bufs blocksize ++ s.echo.passed := by
        rw [hflows.toServer, hall, List.take_length]
      obtain ⟨c, hc⟩ := hflows.passed_prefix
      rw [hwritten] at hc
      obtain ⟨n, hn⟩ := Circulation.prefix_repeated_of_append_eq hblock hc
      rw [hwritten]
      exact ⟨n + 1, Circulation.append_prefix_repeated hn⟩
  answered := h.flows.server.prefix_read.trans h.flows.serverRead
  serverRead := h.flows.serverRead
  clientRead := h.flows.echoRead

/-- The client writes three bytes, and the server reads two of them and sends back one. -/
def threeBytes : List SessionEvent :=
  [.copyBegin, .copyPass 3, .serverRead [0, 1] none, .serverPass 1]

/-- A connection that holds four bytes in each direction. -/
def fourEach : Sockets := ⟨4, 4, by decide, by decide⟩

theorem exists_threeBytes : ∃ s, Reaches 3 fourEach threeBytes s ∧ s.closed = false := by
  refine ⟨_, AbortingRun.Reaches.event (AbortingRun.Reaches.event (AbortingRun.Reaches.event
    (AbortingRun.Reaches.event .start ?_ rfl) ?_ rfl) ?_ rfl) ?_ rfl, rfl⟩
  · exact ⟨rfl, rfl⟩
  · exact ⟨rfl, rfl, by decide, by decide, by decide⟩
  · exact ⟨⟨rfl, by decide⟩, ⟨[2], rfl⟩, by decide⟩
  · exact ⟨rfl, by decide, by decide, 2, rfl, by decide⟩

theorem circulates_threeBytes : ∃ s, Reaches 3 fourEach threeBytes s ∧ Circulates 3 s := by
  obtain ⟨s, hs, -⟩ := exists_threeBytes
  exact ⟨s, hs, circulates_of_reaches hs⟩

end Session

end LearnUv.GoPingPong
