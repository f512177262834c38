import LearnUv.Common.Memory
import LearnUv.Library.DeferredWrites

/-!
# `chargen`

A server that writes one message to each client, again and again: the completion of a write
starts the next one.  All writes are of the global `globalBuf`, into which the message is
copied before each of them, and their length is that of the pointer `message`.

`Connection.record` is kept for the results about what happens to a connection; the program
does not look at it.  A write on a handle that is closed is refused by libuv.

The counters have the width of the source, so additions wrap around.  The counter of a
connection is still there after it was freed; that it was freed, and that it is used, stands
in the record, and the results say in which runs it is used afterwards.

## Main Definitions

* `onNewConnection`, `onWriteEnd`, `onTimeout` — the callbacks of the source
* `Server`, `step` — the server with its connections, and what one event makes of it
-/

namespace LearnUv.Chargen

open DeferredWrites

/-- `BUFSIZE`. -/
def bufSize : ℕ := 4096

/-- `message`: `"hello world\n"`. -/
def message : List UInt8 := [104, 101, 108, 108, 111, 32, 119, 111, 114, 108, 100, 10]

/-- `sizeof(message)`: the size of a `const char *`. -/
def sizeofMessage : UInt64 := 8

/-- What happens to a connection and its `stats`. -/
inductive Occurrence
  /-- A write of so many bytes is over. -/
  | completed (status : Int32) (bytes : ℕ)
  /-- `stat->transfered` or `stat->start` is read or written. -/
  | usesStat
  /-- `free(req->data)`. -/
  | freesStat
  /-- `uv_close`. -/
  | closes
  /-- `uv_write`. -/
  | writes
  deriving DecidableEq, Repr

/-- A client, with its request. -/
structure Connection where
  transport : Transport UInt8
  /-- The length of the write whose callback has not come yet. -/
  inFlight : Option ℕ
  /-- `uv_close` was called. -/
  closing : Bool
  /-- `stat->transfered`. -/
  transfered : UInt64
  record : List Occurrence

/-- The globals. -/
structure Globals where
  globalBuf : CharArray bufSize
  transfered : UInt64
  /-- The totals that `on_timeout` has printed and taken away. -/
  printed : List UInt64

namespace Connection

/-- An accepted client whose `stats` are not there yet. -/
def accepted : Connection := ⟨.idle, none, false, 0, []⟩

/-- One more entry of the record. -/
def note (c : Connection) (occurrence : Occurrence) : Connection :=
  { c with record := c.record ++ [occurrence] }

/-- `free(req->data)`. -/
def freeStat (c : Connection) : Connection := c.note .freesStat

/-- `uv_close`: what is queued is not sent any more. -/
def close (c : Connection) : Connection :=
  { c.note .closes with closing := true, transport := { c.transport with pending := [] } }

/-- `uv_write` of the first `len` bytes of `globalBuf`. -/
def write (c : Connection) (len : UInt64) : Connection :=
  let c := c.note .writes
  if c.closing then c
  else
    let ub := uvBufInit len
    { c with transport := c.transport.submit ub.len.toNat, inFlight := some ub.len.toNat }

/-- libuv sends at most `k` bytes of what is queued. -/
def flush (c : Connection) (memory : List UInt8) (k : ℕ) : Connection :=
  { c with transport := c.transport.flush memory k }

/-- libuv is done with the write in flight. -/
def complete (c : Connection) (status : Int32) : Connection :=
  match c.inFlight with
  | none => c
  | some bytes =>
      { c.note (.completed status bytes) with
        inFlight := none
        transport := { c.transport with pending := [] } }

end Connection

/-- `strcpy(globalBuf, message)`. -/
def copyMessage (g : Globals) : Exec Globals := do
  let globalBuf ← g.globalBuf.store 0 (cStr message)
  return { g with globalBuf }

/-- `on_write_end`.  There is no `return` behind the treatment of a failure. -/
def onWriteEnd (g : Globals) (c : Connection) (status : Int32) :
    Exec (Globals × Connection) := do
  let c := if status < 0 then (c.note .usesStat).freeStat.close else c
  let g ← copyMessage g
  let c := { c.note .usesStat with transfered := c.transfered + sizeofMessage }
  let g := { g with transfered := g.transfered + sizeofMessage }
  return (g, c.write sizeofMessage)

/-- What the calls of `on_new_connection` return. -/
structure AcceptResults where
  status : Int32
  accepted : Int32
  peername : Int32
  /-- The family of the address is `AF_INET`. -/
  inet : Bool
  ip4Name : Int32
  deriving DecidableEq, Repr

/-- The part of `on_new_connection` that prints the address. -/
def printAddress (results : AcceptResults) : Exec Unit :=
  if results.inet then checkUv results.ip4Name else .ok ()

/-- `on_new_connection`. -/
def onNewConnection (g : Globals) (results : AcceptResults) :
    Exec (Globals × Option Connection) := do
  if results.status < 0 then
    return (g, none)
  else
    checkUv results.accepted
    checkUv results.peername
    printAddress results
    let g ← copyMessage g
    let c := { Connection.accepted.note .usesStat with transfered := 0 }
    return (g, some (c.write sizeofMessage))

/-- `on_timeout`. -/
def onTimeout (g : Globals) : Globals :=
  { g with transfered := 0, printed := g.printed ++ [g.transfered] }

/-! ## The server -/

/-- The program with its connections. -/
structure Server where
  globals : Globals
  connections : List Connection

/-- What libuv does. -/
inductive Event
  /-- `on_new_connection`. -/
  | connection (results : AcceptResults)
  /-- At most `k` bytes of what is queued for the connection number `i` are sent. -/
  | flush (i k : ℕ)
  /-- `on_write_end`, for the connection number `i`. -/
  | writeEnd (i : ℕ) (status : Int32)
  /-- `on_timeout`. -/
  | timeout
  deriving DecidableEq, Repr

/-- No connection yet.  The memory of `globalBuf` is zero. -/
def start : Server := ⟨⟨CharArray.zeros bufSize, 0, []⟩, []⟩

/-- One event. -/
def step (s : Server) : Event → Exec Server
  | .connection results => do
      let (globals, c) ← onNewConnection s.globals results
      return ⟨globals, s.connections ++ c.toList⟩
  | .flush i k =>
      match s.connections[i]? with
      | none => .ok s
      | some c =>
          .ok { s with connections := s.connections.set i (c.flush s.globals.globalBuf.bytes k) }
  | .writeEnd i status =>
      match s.connections[i]? with
      | none => .ok s
      | some c => do
          let (globals, c) ← onWriteEnd s.globals (c.complete status) status
          return ⟨globals, s.connections.set i c⟩
  | .timeout => .ok { s with globals := onTimeout s.globals }

/-- What libuv may do: a write succeeds when all of its bytes were sent, and can fail at any
time. -/
def Enabled (s : Server) : Event → Prop
  | .connection _ => True
  | .flush i _ => ∃ c ∈ s.connections[i]?, c.closing = false
  | .writeEnd i status => ∃ c ∈ s.connections[i]?, c.inFlight.isSome = true ∧
      (0 ≤ status → c.transport.pending = [])
  | .timeout => True

instance (s : Server) (event : Event) : Decidable (Enabled s event) :=
  match event with
  | .connection _ => inferInstanceAs (Decidable True)
  | .flush i _ => inferInstanceAs (Decidable (∃ c ∈ s.connections[i]?, c.closing = false))
  | .writeEnd i status => inferInstanceAs (Decidable (∃ c ∈ s.connections[i]?,
      c.inFlight.isSome = true ∧ (0 ≤ status → c.transport.pending = [])))
  | .timeout => inferInstanceAs (Decidable True)

/-- libuv does each thing of the history when it may. -/
def Delivered (history : List Event) : Prop := AbortingRun.EachStep step Enabled start history

/-! ## What the callbacks do -/

theorem copyMessage_spec (g : Globals) :
    ∃ globalBuf : CharArray bufSize, copyMessage g = .ok { g with globalBuf } ∧
      cStr message <+: globalBuf.bytes := by
  have hfits : 0 + (cStr message).length ≤ bufSize := by decide
  obtain ⟨globalBuf, hstore, hbytes⟩ := g.globalBuf.store_of_fits hfits
  refine ⟨globalBuf, by rw [copyMessage, hstore]; rfl, ?_⟩
  rw [hbytes, overwrite, List.take_zero, List.nil_append]
  exact List.prefix_append _ _

/-- A client is accepted with its first write in flight. -/
def Connection.fresh : Connection :=
  ⟨⟨[(0, 8)], []⟩, some 8, false, 0, [.usesStat, .writes]⟩

/-- **A new connection** is turned down, or comes last. -/
theorem step_connection {s t : Server} {results : AcceptResults}
    (h : step s (.connection results) = .ok t) :
    t = s ∨ ∃ globalBuf : CharArray bufSize, cStr message <+: globalBuf.bytes ∧
      t = ⟨{ s.globals with globalBuf }, s.connections ++ [.fresh]⟩ := by
  obtain ⟨⟨globals, c⟩, hcallback, h⟩ := AbortingRun.bind_eq_ok.mp h
  cases h
  obtain ⟨globalBuf, hcopy, hbuf⟩ := copyMessage_spec s.globals
  unfold onNewConnection at hcallback
  split at hcallback
  · cases hcallback
    exact Or.inl (by simp)
  · refine Or.inr ⟨globalBuf, hbuf, ?_⟩
    obtain ⟨-, -, hcallback⟩ := AbortingRun.bind_eq_ok.mp hcallback
    obtain ⟨-, -, hcallback⟩ := AbortingRun.bind_eq_ok.mp hcallback
    obtain ⟨-, -, hcallback⟩ := AbortingRun.bind_eq_ok.mp hcallback
    rw [hcopy] at hcallback
    cases hcallback
    rfl

/-- The connection after a write that succeeded. -/
def Connection.next (c : Connection) (status : Int32) : Connection where
  transport := ⟨[(0, 8)], c.transport.out⟩
  inFlight := some 8
  closing := false
  transfered := c.transfered + sizeofMessage
  record := c.record ++ [.completed status 8, .usesStat, .writes]

/-- The connection after a write that failed. -/
def Connection.failed (c : Connection) (status : Int32) : Connection where
  transport := ⟨[], c.transport.out⟩
  inFlight := none
  closing := true
  transfered := c.transfered + sizeofMessage
  record := c.record ++
    [.completed status 8, .usesStat, .freesStat, .closes, .usesStat, .writes]

/-- The connection after a write that is over. -/
def Connection.written (c : Connection) (status : Int32) : Connection :=
  if status < 0 then c.failed status else c.next status

/-- **The completion of a write**, successful or not, is counted, and followed by a write. -/
theorem onWriteEnd_spec (g : Globals) {c : Connection} (hopen : c.closing = false)
    (hflight : c.inFlight = some 8) (status : Int32) :
    ∃ globalBuf : CharArray bufSize, cStr message <+: globalBuf.bytes ∧
      onWriteEnd g (c.complete status) status = .ok ({ g with
        globalBuf
        transfered := g.transfered + sizeofMessage }, c.written status) := by
  obtain ⟨globalBuf, hcopy, hbuf⟩ := copyMessage_spec g
  refine ⟨globalBuf, hbuf, ?_⟩
  rw [onWriteEnd, hcopy, AbortingRun.ok_bind, Connection.written]
  split
  · simp [Connection.failed, Connection.freeStat, Connection.close, Connection.note,
      Connection.write, Connection.complete, hflight]
  · have hlen : (uvBufInit sizeofMessage).len.toNat = 8 := by decide
    simp [Connection.next, Connection.note, Connection.write, Connection.complete, hopen, hflight,
      hlen, Transport.submit]

/-- A connection that is open waits for its write, and a closed one for nothing. -/
def Connection.Waits (c : Connection) : Prop :=
  if c.closing then c.inFlight = none else c.inFlight = some 8

/-- **A write that is over**, of an open connection. -/
theorem step_writeEnd {s : Server} {i : ℕ} {status : Int32} (h : ∀ c ∈ s.connections, c.Waits)
    (henabled : Enabled s (.writeEnd i status)) :
    ∃ (c : Connection) (globalBuf : CharArray bufSize), s.connections[i]? = some c ∧
      c.closing = false ∧ (0 ≤ status → c.transport.pending = []) ∧
        cStr message <+: globalBuf.bytes ∧
          step s (.writeEnd i status) = .ok
            ⟨{ s.globals with globalBuf, transfered := s.globals.transfered + sizeofMessage },
              s.connections.set i (c.written status)⟩ := by
  obtain ⟨c, hc, hsome, hsent⟩ := henabled
  rw [Option.mem_def] at hc
  have hwaits := h c (List.mem_of_getElem? hc)
  rw [Connection.Waits] at hwaits
  split at hwaits
  · rw [hwaits] at hsome
    cases hsome
  · next hopen =>
      have hopen' := Bool.eq_false_of_not_eq_true hopen
      obtain ⟨globalBuf, hbuf, hcallback⟩ := onWriteEnd_spec s.globals hopen' hwaits status
      refine ⟨c, globalBuf, hc, hopen', hsent, hbuf, ?_⟩
      rw [step, hc]
      dsimp only
      rw [hcallback]
      rfl

/-- What a step does, if it does anything, when all connections are as they should be. -/
inductive Change (s : Server) : Event → Server → Prop
  | refused (results : AcceptResults) : Change s (.connection results) s
  | accepted (results : AcceptResults) {globalBuf : CharArray bufSize}
      (hbuf : cStr message <+: globalBuf.bytes) :
      Change s (.connection results)
        ⟨{ s.globals with globalBuf }, s.connections ++ [.fresh]⟩
  | flush {i : ℕ} (k : ℕ) {c : Connection} (hc : s.connections[i]? = some c)
      (hopen : c.closing = false) :
      Change s (.flush i k)
        { s with connections := s.connections.set i (c.flush s.globals.globalBuf.bytes k) }
  | writeEnd {i : ℕ} (status : Int32) {c : Connection} (hc : s.connections[i]? = some c)
      (hopen : c.closing = false) (hsent : 0 ≤ status → c.transport.pending = [])
      {globalBuf : CharArray bufSize} (hbuf : cStr message <+: globalBuf.bytes) :
      Change s (.writeEnd i status)
        ⟨{ s.globals with globalBuf, transfered := s.globals.transfered + sizeofMessage },
          s.connections.set i (c.written status)⟩
  | timeout : Change s .timeout { s with globals := onTimeout s.globals }

/-- **An enabled event** leads to one of these changes. -/
theorem change_of_step {s t : Server} {event : Event} (h : ∀ c ∈ s.connections, c.Waits)
    (henabled : Enabled s event) (hstep : step s event = .ok t) : Change s event t := by
  cases event with
  | connection results =>
      rcases step_connection hstep with rfl | ⟨globalBuf, hbuf, rfl⟩
      · exact .refused results
      · exact .accepted results hbuf
  | flush i k =>
      obtain ⟨c, hc, hopen⟩ := henabled
      rw [Option.mem_def] at hc
      rw [step, hc] at hstep
      cases hstep
      exact .flush k hc hopen
  | writeEnd i status =>
      obtain ⟨c, globalBuf, hc, hopen, hsent, hbuf, hcallback⟩ := step_writeEnd h henabled
      obtain rfl := AbortingRun.ok_unique hstep hcallback
      exact .writeEnd status hc hopen hsent hbuf
  | timeout =>
      cases hstep
      exact .timeout

theorem Connection.waits_written (c : Connection) (status : Int32) : (c.written status).Waits := by
  unfold written
  split <;> rfl

/-- What holds of all elements holds when one of them is replaced. -/
theorem forall_mem_set {α : Type} {P : α → Prop} {xs : List α} {i : ℕ} {a : α}
    (h : ∀ x ∈ xs, P x) (ha : P a) : ∀ x ∈ xs.set i a, P x := by
  intro x hx
  rcases List.mem_or_eq_of_mem_set hx with hx | rfl
  · exact h x hx
  · exact ha

/-- Connections stay as they should be. -/
theorem Change.waits {s t : Server} {event : Event} (hchange : Change s event t)
    (h : ∀ c ∈ s.connections, c.Waits) : ∀ c ∈ t.connections, c.Waits := by
  cases hchange with
  | refused results => exact h
  | accepted results hbuf => exact List.forall_mem_append.mpr ⟨h, List.forall_mem_singleton.mpr rfl⟩
  | @flush i k c hc hopen =>
      have hwaits : (c.flush s.globals.globalBuf.bytes k).Waits := h c (List.mem_of_getElem? hc)
      exact forall_mem_set h hwaits
  | writeEnd status hc hopen hsent hbuf =>
      exact forall_mem_set h (Connection.waits_written _ status)
  | timeout => exact h

end LearnUv.Chargen
