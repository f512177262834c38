import LearnUv.Socks.Connecting

/-!
# How long a tunnel and its buffers live

A tunnel has one request object and one buffer for all that is written on behalf of its
client, and the answer to a request is written from the stack.  It is freed when a connect
fails, and at no other time; its handles are never closed.  This module says in which runs
that does no harm.

Both results are about runs.  The one about writes turns "in every state" into a condition
on the callbacks, one at a time: the invariant `Sparing` is kept by a callback that meets
the condition, and one that does not leads to a state where a write is lost.  What a
callback does for a tunnel that was freed is undefined, so no run with such a callback
counts as one that keeps its writes.  The result about the lifetime reads the record of a
run instead: nothing in it is ever a close.

## Main Definitions

* `WritesIntact` — what is in flight is one write at most, and its bytes are still there
* `WritesKept` — that holds throughout, and no callback is called for a freed tunnel
* `SparesWrites` — the callbacks that leave what is in flight alone
* `LifetimeKept` — a tunnel is not used after it was freed, and once both of its streams
  are done everything is released
* `Unfinished` — the runs in which it never comes to that

## Main Results

* `writesIntact_iff` — writes stay intact throughout a run exactly when every callback of
  it spares them
* `lifetimeKept_iff` — the lifetime is kept exactly in the unfinished runs
-/

namespace LearnUv.Socks

namespace Session

variable {gap : ℕ}

/-! ## What is in flight -/

/-- At most one write with `client_write_req` is in flight; the tunnel that holds the
request exists; and the bytes to be written are where they were.  The frame of
`on_client_read` does not exist between two callbacks. -/
def WritesIntact (s : Session gap) : Prop :=
  s.clientWrites.length ≤ 1 ∧ ∀ write ∈ s.clientWrites, s.freed = false ∧
    write.source = .clientBuf ∧
      s.tunnel.clientBuf.bytes.take write.bytes.length = write.bytes

/-- Throughout a run the writes stay intact, and each callback is called for a tunnel that
exists. -/
def WritesKept (s : Session gap) (history : List (Event gap)) : Prop :=
  AbortingRun.EachStep step (fun s _ => s.freed = false) s history ∧
    AbortingRun.Always step WritesIntact s history

/-- A read of the client comes when nothing is in flight, and is no request; a connect
that fails comes when nothing is in flight. -/
def LeavesWrites (s : Session gap) : Event gap → Prop
  | .clientData data =>
      s.clientWrites = [] ∧ ¬OpensRequest (overwrite s.tunnel.clientBuf.bytes 0 data)
  | .connectDone _ status => status < 0 → s.clientWrites = []
  | _ => True

/-- The callback is called for a tunnel that exists, and leaves what is in flight alone. -/
def SparesWrites (s : Session gap) (event : Event gap) : Prop :=
  s.freed = false ∧ s.LeavesWrites event

/-- The invariant of the sessions that spare their writes: what is in flight goes to a
server the tunnel is connected to. -/
structure Sparing (s : Session gap) : Prop where
  intact : s.WritesIntact
  connected : s.clientWrites ≠ [] → s.tunnel.status = .connectedToServer

theorem sparing_of_idle {s : Session gap} (hs : s.clientWrites = []) : s.Sparing where
  intact := by
    rw [WritesIntact, hs]
    exact ⟨Nat.zero_le _, fun _ h => by cases h⟩
  connected := fun h => absurd hs h

/-- The invariant sees the writes, the buffer, the status, and whether the tunnel exists. -/
theorem Sparing.of_eq {s t : Session gap} (hs : s.Sparing)
    (hwrites : t.clientWrites = s.clientWrites) (hfreed : t.freed = s.freed)
    (hbuf : t.tunnel.clientBuf = s.tunnel.clientBuf)
    (hstatus : t.tunnel.status = s.tunnel.status) : t.Sparing where
  intact := by
    rw [WritesIntact, hwrites, hfreed, hbuf]
    exact hs.intact
  connected := by
    rw [hwrites, hstatus]
    exact hs.connected

/-- A callback that leaves the writes alone keeps them intact. -/
theorem Sparing.step {s t : Session gap} (hs : s.Sparing) (hlive : s.freed = false)
    {event : Event gap} (hstep : s.step event = .ok t) (hspares : s.LeavesWrites event) :
    t.Sparing := by
  cases event with
  | clientData data =>
      obtain ⟨hidle, hbase⟩ := hspares
      obtain ⟨clientBuf, hbytes, hcases⟩ := clientData_eq_ok hlive hstep
      rw [hbytes] at hcases
      rcases hcases with ⟨hopens, -⟩ | ⟨-, ⟨hconnected, rfl⟩ | ⟨-, -, serverBuf, rfl⟩ | ⟨-, -, rfl⟩⟩
      · exact absurd hopens hbase
      · have hone : ((s.received clientBuf).forward data).clientWrites =
            [⟨.clientBuf, data⟩] := by
          show s.clientWrites ++ _ = _
          rw [hidle, List.nil_append]
        refine ⟨?_, fun _ => hconnected⟩
        rw [WritesIntact, hone]
        refine ⟨le_rfl, ?_⟩
        intro write hwrite
        rw [List.mem_singleton.mp hwrite]
        refine ⟨hlive, rfl, ?_⟩
        show clientBuf.bytes.take data.length = data
        rw [hbytes, take_overwrite_zero]
      · exact sparing_of_idle hidle
      · exact sparing_of_idle hidle
  | clientEnd nread =>
      rw [step_clientEnd hlive] at hstep
      cases hstep
      exact hs.of_eq rfl rfl rfl rfl
  | connectDone dest status =>
      by_cases hfailed : status < 0
      · rw [step_connectFailed hlive dest hfailed] at hstep
        cases hstep
        exact sparing_of_idle (hspares hfailed)
      · rw [step_connected hlive dest hfailed] at hstep
        cases hstep
        exact ⟨hs.intact, fun _ => rfl⟩
  | serverData data behind =>
      obtain ⟨-, serverBuf, stale, -, rfl⟩ := serverData_eq_ok hlive hstep
      exact hs.of_eq rfl rfl rfl rfl
  | serverEnd nread =>
      rw [step_serverEnd hlive] at hstep
      cases hstep
      exact hs.of_eq rfl rfl rfl rfl
  | clientWriteEnd i =>
      rw [step_clientWriteEnd hlive] at hstep
      cases hstep
      have hsub : ∀ write ∈ s.clientWrites.eraseIdx i, write ∈ s.clientWrites :=
        fun write hwrite => List.mem_of_mem_eraseIdx hwrite
      refine ⟨⟨?_, fun write hwrite => hs.intact.2 write (hsub write hwrite)⟩, ?_⟩
      · exact (List.length_eraseIdx_le _ _).trans hs.intact.1
      · intro hne
        obtain ⟨write, hwrite⟩ := List.exists_mem_of_ne_nil _ hne
        exact hs.connected (List.ne_nil_of_mem (hsub write hwrite))

/-- A callback that does not leave the writes alone makes one that is not intact. -/
theorem Sparing.leaves_of_intact {s t : Session gap} (hs : s.Sparing) (hlive : s.freed = false)
    {event : Event gap} (hstep : s.step event = .ok t) (hintact : t.WritesIntact) :
    s.LeavesWrites event := by
  cases event with
  | clientData data =>
      obtain ⟨clientBuf, hbytes, hcases⟩ := clientData_eq_ok hlive hstep
      rw [hbytes] at hcases
      rcases hcases with ⟨hopens, rfl⟩ | ⟨hbase, hcases⟩
      · -- the answer is written from the stack
        have hmem : (⟨.sendBuf, grantedReply⟩ : ClientWrite) ∈
            s.clientWrites ++ [⟨.sendBuf, grantedReply⟩] :=
          List.mem_append_right _ (List.mem_singleton_self _)
        cases (hintact.2 _ hmem).2.1
      · refine ⟨?_, hbase⟩
        by_contra hne
        have hconnected := hs.connected hne
        rcases hcases with ⟨-, rfl⟩ | ⟨hconnecting, -⟩ | ⟨hnot, -⟩
        · -- the request object is used a second time
          have hlen : (s.clientWrites ++ [(⟨.clientBuf, data⟩ : ClientWrite)]).length ≤ 1 :=
            hintact.1
          rw [List.length_append, List.length_singleton] at hlen
          exact hne (List.eq_nil_of_length_eq_zero (by omega))
        · rw [hconnected] at hconnecting
          cases hconnecting
        · exact hnot hconnected
  | connectDone dest status =>
      intro hfailed
      rw [step_connectFailed hlive dest hfailed] at hstep
      cases hstep
      refine List.eq_nil_iff_forall_not_mem.mpr fun write hwrite => ?_
      cases (hintact.2 write hwrite).1
  | clientEnd nread => trivial
  | serverData data behind => trivial
  | serverEnd nread => trivial
  | clientWriteEnd i => trivial

/-- A callback that does not return has left the writes alone. -/
theorem Sparing.leaves_of_error {s : Session gap} (hs : s.Sparing) (hlive : s.freed = false)
    {event : Event gap} (henabled : s.Enabled event) {abort : Abort}
    (hstep : s.step event = .error abort) : s.LeavesWrites event := by
  cases event with
  | clientData data =>
      obtain ⟨clientBuf, -, hread⟩ := step_clientData hlive henabled.2
      rw [hread] at hstep
      split at hstep
      · cases hstep
      · next hbase =>
          refine ⟨?_, hbase⟩
          by_contra hne
          rw [if_pos (hs.connected hne)] at hstep
          cases hstep
  | connectDone dest status =>
      obtain ⟨t, hreturns⟩ := step_connectDone_returns hlive dest status
      rw [hstep] at hreturns
      cases hreturns
  | clientEnd nread => trivial
  | serverData data behind => trivial
  | serverEnd nread => trivial
  | clientWriteEnd i => trivial

/-- **The writes of a tunnel stay intact throughout a run exactly when every callback
spares them**: it is called for a tunnel that exists, no read of the client is taken for a
request, none comes while a write is in flight, and no connect fails while one is. -/
theorem writesIntact_iff {s : Session gap} (hs : s.clientWrites = [])
    {history : List (Event gap)} (hdelivered : s.Delivered history) :
    WritesKept s history ↔ AbortingRun.EachStep step SparesWrites s history := by
  have hsplit : AbortingRun.EachStep step SparesWrites s history ↔
      AbortingRun.EachStep step (fun s _ => s.freed = false) s history ∧
        AbortingRun.EachStep step LeavesWrites s history := AbortingRun.eachStep_and
  rw [hsplit]
  refine and_congr_right fun hlive => ?_
  exact AbortingRun.always_iff_eachStep (I := Sparing) (fun _ hI => hI.intact)
    (fun _ _ _ hI hevent hstep hleaves => hI.step hevent.2 hstep hleaves)
    (fun _ _ _ hI hevent hstep hintact => hI.leaves_of_intact hevent.2 hstep hintact)
    (fun _ _ _ hI hevent hstep => hI.leaves_of_error hevent.2 hevent.1 hstep)
    (sparing_of_idle hs) (AbortingRun.eachStep_and.mpr ⟨hdelivered, hlive⟩)

/-- The tunnel is connected, and the answer to the request is written. -/
def settled : List (Event 248) :=
  [.clientData localRequest, .connectDone localDest 0, .clientWriteEnd 0]

/-- The session a computed run leads to, and what may be delivered to it from there. -/
theorem exists_settled (history : List (Event 248))
    (hdelivered : (runEvents zeroTunnel (settled ++ history)).isSome = true) :
    ∃ s, (accept zeroTunnel).run settled = .ok s ∧ s.clientWrites = [] ∧
      s.Delivered history := by
  have hrun : ((accept zeroTunnel).run settled).map clientWrites = .ok [] := by decide +kernel
  obtain ⟨s, hs, hidle⟩ := AbortingRun.exists_of_map_eq_ok hrun
  have hwhole := delivered_of_runEvents hdelivered
  exact ⟨s, hs, hidle, (AbortingRun.eachStep_append.mp hwhole).2 s hs⟩

/-- Two bytes, each of which is written before the next one is read. -/
theorem writesIntact_iff_unhurried : ∃ s, (accept zeroTunnel).run settled = .ok s ∧
    (WritesKept s [.clientData [72], .clientWriteEnd 0, .clientData [73]] ↔
      AbortingRun.EachStep step SparesWrites s
        [.clientData [72], .clientWriteEnd 0, .clientData [73]]) := by
  obtain ⟨s, hrun, hidle, hdelivered⟩ := exists_settled
    [.clientData [72], .clientWriteEnd 0, .clientData [73]] (by decide +kernel)
  exact ⟨s, hrun, writesIntact_iff hidle hdelivered⟩

/-- The second byte is read while the first one is in flight. -/
theorem not_writesIntact_hurried : ∃ s, (accept zeroTunnel).run settled = .ok s ∧
    s.clientWrites = [] ∧ s.Delivered [.clientData [72], .clientData [73]] ∧
      ¬WritesKept s [.clientData [72], .clientData [73]] := by
  obtain ⟨s, hrun, hidle, hdelivered⟩ := exists_settled
    [.clientData [72], .clientData [73]] (by decide +kernel)
  refine ⟨s, hrun, hidle, hdelivered, ?_⟩
  rintro ⟨-, halways⟩
  have htwo : ((accept zeroTunnel).run (settled ++ [.clientData [72], .clientData [73]])).map
      (fun t => t.clientWrites.length) = .ok 2 := by decide +kernel
  obtain ⟨t, ht, hlen⟩ := AbortingRun.exists_of_map_eq_ok htwo
  obtain ⟨s', hs', hlast⟩ := (AbortingRun.run_append_eq_ok step).mp ht
  rw [run] at hrun
  obtain rfl := AbortingRun.ok_unique hrun hs'
  have hle := (AbortingRun.always_iff.mp halways _ t List.prefix_rfl hlast).1
  omega

/-! ## The life of the tunnel -/

/-- The client stream has ended, or was given up. -/
def ClientEnded (history : List (Event gap)) : Prop := ∃ nread, .clientEnd nread ∈ history

/-- So has the server stream, and it was not connected once more. -/
def ServerEnded (history : List (Event gap)) : Prop :=
  ∃ before nread after, history = before ++ .serverEnd nread :: after ∧
    ∀ dest status, .connectDone dest status ∉ after

/-- A connect has failed. -/
def ConnectFailed (history : List (Event gap)) : Prop := ∃ event ∈ history, event.Fails

/-- Both streams have ended, and none is about to be connected again; or the connect has
failed, and the client stream has ended. -/
def Ended (history : List (Event gap)) (s : Session gap) : Prop :=
  ClientEnded history ∧ (ServerEnded history ∧ s.connecting = [] ∨ ConnectFailed history)

/-- Each handle that was initialised was closed once, and the tunnel was freed once. -/
def Released (log : List Action) : Prop :=
  (∀ side, .tcpInit side ∈ log → log.count (.close side) = 1) ∧ log.count .free = 1

/-- No callback has been called for a tunnel that was freed; and when it has ended,
everything is released. -/
def LifetimeKept (history : List (Event gap)) (s : Session gap) : Prop :=
  .useAfterFree ∉ s.log ∧ (Ended history s → Released s.log)

/-- It has not come to an end yet, and nothing has come after a connect that failed. -/
def Unfinished (history : List (Event gap)) (s : Session gap) : Prop :=
  ¬ConnectFailed history.dropLast ∧ ¬Ended history s

/-- What `LifetimeKept` looks for in the record. -/
def IsDisposal : Action → Prop
  | .close _ => True
  | .useAfterFree => True
  | _ => False

/-- A callback for a tunnel that exists closes nothing, and frees the tunnel exactly if it
is that of a connect that failed. -/
theorem step_disposal {s t : Session gap} (hlive : s.freed = false) {event : Event gap}
    (hstep : s.step event = .ok t) :
    (t.freed = true ↔ event.Fails) ∧ ∀ action ∈ t.log, IsDisposal action → action ∈ s.log := by
  have hkept : ∀ {added : List Action}, (∀ action ∈ added, ¬IsDisposal action) →
      ∀ action ∈ s.log ++ added, IsDisposal action → action ∈ s.log := by
    intro added hadded action hmem hdisposal
    rcases List.mem_append.mp hmem with hold | hnew
    · exact hold
    · exact absurd hdisposal (hadded action hnew)
  cases event with
  | clientData data =>
      obtain ⟨clientBuf, -, hcases⟩ := clientData_eq_ok hlive hstep
      rcases hcases with ⟨-, rfl⟩ | ⟨-, ⟨-, rfl⟩ | ⟨-, -, serverBuf, rfl⟩ | ⟨-, -, rfl⟩⟩
      · refine ⟨by simp [request, received, hlive, Event.Fails], ?_⟩
        simp only [request, received, List.append_assoc]
        refine hkept ?_
        intro action hmem
        simp only [List.mem_append, List.mem_cons, List.mem_ite_nil_right, List.not_mem_nil,
          or_false] at hmem
        rcases hmem with (rfl | ⟨-, rfl⟩) | rfl | rfl <;> exact id
      · refine ⟨by simp [forward, received, hlive, Event.Fails], hkept ?_⟩
        simp [IsDisposal]
      · refine ⟨by simp [kept, received, hlive, Event.Fails], hkept ?_⟩
        simp [IsDisposal]
      · refine ⟨by simp [record, received, hlive, Event.Fails], hkept ?_⟩
        simp [IsDisposal]
  | clientEnd nread =>
      rw [step_clientEnd hlive] at hstep
      cases hstep
      exact ⟨by simp [hlive, Event.Fails], fun _ hmem _ => hmem⟩
  | connectDone dest status =>
      by_cases hfailed : status < 0
      · rw [step_connectFailed hlive dest hfailed, List.append_assoc] at hstep
        cases hstep
        refine ⟨by simp [hfailed, Event.Fails], hkept ?_⟩
        simp [IsDisposal]
      · rw [step_connected hlive dest hfailed, List.append_assoc] at hstep
        cases hstep
        refine ⟨by simp [hlive, hfailed, Event.Fails], hkept ?_⟩
        simp [IsDisposal]
  | serverData data behind =>
      obtain ⟨-, serverBuf, stale, -, rfl⟩ := serverData_eq_ok hlive hstep
      refine ⟨by simp [record, hlive, Event.Fails], hkept ?_⟩
      simp [IsDisposal]
  | serverEnd nread =>
      rw [step_serverEnd hlive] at hstep
      cases hstep
      exact ⟨by simp [hlive, Event.Fails], fun _ hmem _ => hmem⟩
  | clientWriteEnd i =>
      rw [step_clientWriteEnd hlive] at hstep
      cases hstep
      exact ⟨by simp [hlive, Event.Fails], fun _ hmem _ => hmem⟩

/-- What the record of a run tells of the tunnel: its client handle was initialised, and
none is closed; it is gone since a connect has failed. -/
structure Ledger (history : List (Event gap)) (s : Session gap) : Prop where
  opened : .tcpInit .client ∈ s.log
  neverClosed : ∀ side, .close side ∉ s.log
  freed : s.freed = true ↔ ConnectFailed history
  used : .useAfterFree ∈ s.log ↔ ConnectFailed history.dropLast

/-- The record of every run is such a ledger. -/
theorem Reaches.ledger {memory : Tunnel gap} {history : List (Event gap)} {s : Session gap}
    (h : Reaches memory history s) : Ledger history s := by
  induction h with
  | start =>
      exact
        { opened := List.mem_cons_self
          neverClosed := by simp [accept]
          freed := by simp [accept, ConnectFailed]
          used := by simp [accept, ConnectFailed] }
  | @event history s t event before henabled hstep ih =>
      have hlog := (step_log hstep).subset
      have hfailed : ConnectFailed (history ++ [event]) ↔
          ConnectFailed history ∨ event.Fails := by
        simp [ConnectFailed, or_and_right, exists_or]
      rcases Bool.eq_false_or_eq_true s.freed with hfreed | hlive
      · rw [step_of_freed hfreed] at hstep
        cases hstep
        have hgone := ih.freed.mp hfreed
        exact
          { opened := hlog ih.opened
            neverClosed := by simpa [record] using ih.neverClosed
            freed := iff_of_true hfreed (hfailed.mpr (Or.inl hgone))
            used := by simpa [record] using hgone }
      · obtain ⟨hfreed, hdisposal⟩ := step_disposal hlive hstep
        have hnone : ¬ConnectFailed history := by
          rw [← ih.freed, hlive]
          exact Bool.false_ne_true
        have hunused : .useAfterFree ∉ s.log := by
          rw [ih.used]
          rintro ⟨failed, hmem, hfails⟩
          exact hnone ⟨failed, (List.dropLast_subset history) hmem, hfails⟩
        refine
          { opened := hlog ih.opened
            neverClosed := fun side hmem =>
              ih.neverClosed side (hdisposal _ hmem trivial)
            freed := by rw [hfreed, hfailed, or_iff_right hnone]
            used := ?_ }
        rw [List.dropLast_concat]
        exact iff_of_false (fun hmem => hunused (hdisposal _ hmem trivial)) hnone

/-- **The lifetime of a tunnel is kept exactly in the unfinished runs**: those in which
nothing has come after a connect that failed, and in which the tunnel has not ended.
Nothing is ever closed. -/
theorem lifetimeKept_iff {memory : Tunnel gap} {history : List (Event gap)} {s : Session gap}
    (h : Reaches memory history s) : LifetimeKept history s ↔ Unfinished history s := by
  have hs := h.ledger
  have hkept : ¬Released s.log := by
    rintro ⟨hclosed, -⟩
    have hone := hclosed .client hs.opened
    rw [List.count_eq_zero_of_not_mem (hs.neverClosed .client)] at hone
    cases hone
  rw [LifetimeKept, Unfinished, hs.used]
  exact and_congr_right fun _ => imp_iff_not hkept

/-- `UV_EOF`. -/
def eof : ReadError := ⟨-4095, by decide⟩

/-- The server has ended, and the client has not. -/
theorem lifetimeKept_iff_halfEnded : ∃ s,
    Reaches zeroTunnel (opened ++ [.serverEnd eof]) s ∧
      (LifetimeKept (opened ++ [.serverEnd eof]) s ↔
        Unfinished (opened ++ [.serverEnd eof]) s) := by
  have hrun : (runEvents zeroTunnel (opened ++ [.serverEnd eof])).map freed = some false := by
    decide +kernel
  obtain ⟨s, hreach, -⟩ := exists_reaches_of_map hrun
  exact ⟨s, hreach, lifetimeKept_iff hreach⟩

/-- Both streams have ended, and nothing was closed or freed. -/
theorem not_lifetimeKept_ended : ∃ s,
    Reaches zeroTunnel (opened ++ [.serverEnd eof, .clientEnd eof]) s ∧
      ¬LifetimeKept (opened ++ [.serverEnd eof, .clientEnd eof]) s := by
  have hrun : (runEvents zeroTunnel (opened ++ [.serverEnd eof, .clientEnd eof])).map
      (fun s => (s.connecting, s.log.count .free)) = some ([], 0) := by decide +kernel
  obtain ⟨s, hreach, hs⟩ := exists_reaches_of_map hrun
  refine ⟨s, hreach, ?_⟩
  rintro ⟨-, hreleased⟩
  have hended : Ended (opened ++ [.serverEnd eof, .clientEnd eof]) s := by
    refine ⟨⟨eof, by simp⟩, Or.inl ⟨⟨opened, eof, [.clientEnd eof], rfl, by simp⟩, ?_⟩⟩
    exact congrArg Prod.fst hs
  have hfree := (hreleased hended).2
  rw [show s.log.count .free = 0 from congrArg Prod.snd hs] at hfree
  cases hfree

end Session

end LearnUv.Socks
