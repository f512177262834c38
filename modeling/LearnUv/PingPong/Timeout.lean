import LearnUv.PingPong.Programs
import Mathlib.Algebra.BigOperators.Group.List.Basic
import Mathlib.Algebra.Order.BigOperators.Group.List

/-!
# The report of `pingpong`

When its timer fires the client of `pingpong` adds up what all its connections have read,
and prints the sum.  The loop that adds also shuts the connections down, each of them,
whether it is connected or not, and `check_uv` ends the program at the first one that
libuv refuses to shut down.

The loop adds the counter of a connection before it shuts the connection down, and `check_uv`
exits the process, so a sum is printed only if no shutdown is refused.  libuv refuses for a
stream that is not writable: one that has not been connected yet, or was shut down or closed.
The sum is a `ssize_t`, like the counters, and wraps around.

## Main Definitions

* `Client` — the connections with their counters, and the callbacks until the timer fires
* `onTimeout` — the callback of the timer
* `Reports` — it prints the sum, and shuts down what is open

## Main Results

* `reports_iff` — it does exactly when all connections are open, and the sum is a `ssize_t`
-/

namespace LearnUv.PingPong

namespace Timeout

/-- How far a stream has come. -/
inductive Status
  | connecting
  | connected
  | failed
  deriving DecidableEq, Repr

/-- An entry of `connections`, with what libuv knows of its stream. -/
structure Entry where
  connection : Connection
  status : Status
  /-- `uv_close` was called. -/
  closing : Bool
  /-- `uv_shutdown` was called, and accepted. -/
  shut : Bool
  deriving DecidableEq, Repr

/-- The client until its timer fires. -/
structure Client where
  counters : Counters
  connections : List Entry
  deriving DecidableEq, Repr

/-- What `main` has set up. -/
def start (sessions : Int32) : Client where
  counters := ⟨sessions, 0⟩
  connections := List.replicate (intLen sessions) ⟨⟨0⟩, .connecting, false, false⟩

/-! ## Until the timer fires -/

/-- A callback of the connection number `i`.  `written` is what `uv_write` returns. -/
inductive Event
  /-- `onConnect`. -/
  | connect (i : ℕ) (status written : Int32)
  /-- `onReadData`. -/
  | read (i : ℕ) (nread : ℤ) (buf : UvBuf) (written : Int32)
  deriving DecidableEq

/-- One callback. -/
def step (blockSize : Int32) (s : Client) : Event → Exec Client
  | .connect i status written =>
      match s.connections[i]? with
      | none => .ok s
      | some entry => do
          let (counters, _) ← onConnect blockSize s.counters status written
          let status := if status < 0 then .failed else .connected
          return ⟨counters, s.connections.set i { entry with status }⟩
  | .read i nread buf written =>
      match s.connections[i]? with
      | none => .ok s
      | some entry => do
          let (connection, reaction) ← onReadData entry.connection nread buf written
          let closing := entry.closing || reaction = .close
          return { s with connections := s.connections.set i { entry with connection, closing } }

/-- Which callbacks libuv makes.  From a stream that has failed to connect it may report an
error. -/
def Enabled (s : Client) : Event → Prop
  | .connect i _ _ => ∃ entry ∈ s.connections[i]?, entry.status = .connecting
  | .read i nread _ _ => ∃ entry ∈ s.connections[i]?, entry.closing = false ∧
      (entry.status = .connected ∨ entry.status = .failed ∧ nread < 0)

instance (s : Client) (event : Event) : Decidable (Enabled s event) :=
  match event with
  | .connect i _ _ =>
      inferInstanceAs (Decidable (∃ entry ∈ s.connections[i]?, entry.status = .connecting))
  | .read i nread _ _ =>
      inferInstanceAs (Decidable (∃ entry ∈ s.connections[i]?, entry.closing = false ∧
        (entry.status = .connected ∨ entry.status = .failed ∧ nread < 0)))

/-- The states of the client before the timer fires. -/
def Reaches (blockSize sessions : Int32) (history : List Event) (s : Client) : Prop :=
  AbortingRun.Reaches (step blockSize) Enabled (start sessions) history s

/-! ## The timer -/

/-- `UV_ENOTCONN`. -/
def uvEnotconn : Int32 := -107

/-- What can be shut down. -/
def Entry.IsOpen (entry : Entry) : Prop :=
  entry.status = .connected ∧ entry.closing = false ∧ entry.shut = false

instance (entry : Entry) : Decidable entry.IsOpen := instDecidableAnd

/-- `uv_shutdown`. -/
def uvShutdown (entry : Entry) : Int32 := if entry.IsOpen then 0 else uvEnotconn

/-- `Connection::disconnect`. -/
def disconnect (entry : Entry) : Exec Entry := do
  checkUv (uvShutdown entry)
  return { entry with shut := true }

/-- The loop of `onTimeout` that adds and disconnects. -/
def report (totalBytes : Int64) : List Entry → Exec (Int64 × List Entry)
  | [] => .ok (totalBytes, [])
  | entry :: entries => do
      let totalBytes := totalBytes + entry.connection.bytesRead
      let entry ← disconnect entry
      let (totalBytes, entries) ← report totalBytes entries
      return (totalBytes, entry :: entries)

/-- `onTimeout`, with the total it prints. -/
def onTimeout (s : Client) : Exec (Client × Option Int64) :=
  if s.counters.counter = 0 then do
    let connections ← s.connections.mapM disconnect
    return ({ s with connections }, none)
  else do
    let (totalBytes, connections) ← report 0 s.connections
    return ({ s with connections }, some totalBytes)

/-- The sum of `bytesRead` over all connections. -/
def Client.bytesRead (s : Client) : ℤ := (s.connections.map (·.connection.bytesRead.toInt)).sum

/-- The timer's callback prints the sum, and has shut down every connection that was open. -/
def Reports (s : Client) : Prop :=
  ∃ t totalBytes, onTimeout s = .ok (t, some totalBytes) ∧ totalBytes.toInt = s.bytesRead ∧
    ∀ (i : ℕ) (entry : Entry), s.connections[i]? = some entry → entry.IsOpen →
      t.connections[i]? = some { entry with shut := true }

/-! ## The loop -/

theorem disconnect_of_isOpen {entry : Entry} (h : entry.IsOpen) :
    disconnect entry = .ok { entry with shut := true } := by
  rw [disconnect, uvShutdown, if_pos h]
  rfl

theorem disconnect_of_not_isOpen {entry : Entry} (h : ¬entry.IsOpen) :
    disconnect entry = .error (.exit uvEnotconn) := by
  rw [disconnect, uvShutdown, if_neg h]
  rfl

/-- With open connections the loop comes to its end. -/
theorem report_of_isOpen {entries : List Entry} (h : ∀ entry ∈ entries, entry.IsOpen)
    (totalBytes : Int64) :
    report totalBytes entries =
      .ok (totalBytes + Int64.ofInt (entries.map (·.connection.bytesRead.toInt)).sum,
        entries.map fun entry => { entry with shut := true }) := by
  induction entries generalizing totalBytes with
  | nil => simp [report]
  | cons entry entries ih =>
      rw [report, disconnect_of_isOpen (h entry List.mem_cons_self), AbortingRun.ok_bind,
        ih fun e he => h e (List.mem_cons_of_mem _ he), AbortingRun.ok_bind]
      rw [List.map_cons, List.map_cons, List.sum_cons, Int64.ofInt_add, Int64.ofInt_toInt,
        Int64.add_assoc]
      rfl

/-- It does not get past one that is not. -/
theorem isOpen_of_report {entries : List Entry} {totalBytes : Int64} {out : Int64 × List Entry}
    (h : report totalBytes entries = .ok out) : ∀ entry ∈ entries, entry.IsOpen := by
  induction entries generalizing totalBytes out with
  | nil => simp
  | cons entry entries ih =>
      rw [report] at h
      obtain ⟨entry', hdisconnect, h⟩ := AbortingRun.bind_eq_ok.mp h
      obtain ⟨rest, hrest, -⟩ := AbortingRun.bind_eq_ok.mp h
      refine List.forall_mem_cons.mpr ⟨?_, ih hrest⟩
      by_contra hclosed
      rw [disconnect_of_not_isOpen hclosed] at hdisconnect
      cases hdisconnect

/-! ## The counter -/

/-- The connections that have not failed. -/
def Client.alive (s : Client) : ℕ := s.connections.countP fun entry => entry.status ≠ .failed

/-- What is known of the client before the timer fires. -/
structure Counted (sessions : Int32) (s : Client) : Prop where
  length : s.connections.length = intLen sessions
  counter : 0 ≤ sessions → s.counters.counter = Int32.ofNat s.alive

theorem counted_start (sessions : Int32) : Counted sessions (start sessions) where
  length := List.length_replicate
  counter := by
    intro hsessions
    have hint := Int32.le_iff_toInt_le.mp hsessions
    rw [Int32.toInt_zero] at hint
    have halive : (start sessions).alive = intLen sessions := by
      simp [start, Client.alive, List.countP_replicate]
    rw [halive, intLen]
    apply Int32.toInt_inj.mp
    have hlt := sessions.toInt_lt
    rw [Int32.toInt_ofNat_of_lt (by omega)]
    show sessions.toInt = _
    omega

/-- **What a callback does**: it changes one entry; a connect that failed is counted. -/
theorem step_cases {blockSize : Int32} {s t : Client} {event : Event}
    (henabled : Enabled s event) (hstep : step blockSize s event = .ok t) :
    ∃ (i : ℕ) (entry entry' : Entry), s.connections[i]? = some entry ∧
      t.connections = s.connections.set i entry' ∧
        (entry.status ≠ .failed ∧ entry'.status = .failed ∧
            t.counters.counter = s.counters.counter - 1 ∨
          (entry'.status = .failed ↔ entry.status = .failed) ∧ t.counters = s.counters) := by
  cases event with
  | connect i status written =>
      obtain ⟨entry, hentry, hconnecting⟩ := henabled
      rw [Option.mem_def] at hentry
      simp only [step, hentry, onConnect] at hstep
      split at hstep
      · cases hstep
        refine ⟨i, entry, _, hentry, rfl, Or.inl ⟨?_, rfl, rfl⟩⟩
        rw [hconnecting]
        decide
      · obtain ⟨⟨counters, reaction⟩, hwrite, hstep⟩ := AbortingRun.bind_eq_ok.mp hstep
        obtain ⟨-, -, hwrite⟩ := AbortingRun.bind_eq_ok.mp hwrite
        cases hwrite
        cases hstep
        refine ⟨i, entry, _, hentry, rfl, Or.inr ⟨iff_of_false ?_ ?_, rfl⟩⟩
        · exact Status.noConfusion
        · rw [hconnecting]
          exact Status.noConfusion
  | read i nread buf written =>
      obtain ⟨entry, hentry, -, -⟩ := henabled
      rw [Option.mem_def] at hentry
      simp only [step, hentry, onReadData] at hstep
      split at hstep
      · cases hstep
        exact ⟨i, entry, _, hentry, rfl, Or.inr ⟨Iff.rfl, rfl⟩⟩
      · split at hstep
        · cases hstep
          exact ⟨i, entry, _, hentry, rfl, Or.inr ⟨Iff.rfl, rfl⟩⟩
        · obtain ⟨⟨connection, reaction⟩, hwrite, hstep⟩ := AbortingRun.bind_eq_ok.mp hstep
          obtain ⟨-, -, hwrite⟩ := AbortingRun.bind_eq_ok.mp hwrite
          cases hwrite
          cases hstep
          exact ⟨i, entry, _, hentry, rfl, Or.inr ⟨Iff.rfl, rfl⟩⟩

theorem Counted.step {blockSize sessions : Int32} {s t : Client} {event : Event}
    (h : Counted sessions s) (henabled : Enabled s event)
    (hstep : step blockSize s event = .ok t) : Counted sessions t := by
  obtain ⟨i, entry, entry', hentry, hset, hcounter⟩ := step_cases henabled hstep
  obtain ⟨hi, rfl⟩ := List.getElem?_eq_some_iff.mp hentry
  have halive : t.alive = s.alive - (if s.connections[i].status ≠ .failed then 1 else 0)
      + (if entry'.status ≠ .failed then 1 else 0) := by
    rw [Client.alive, hset, List.countP_set hi]
    simp [Client.alive]
  refine ⟨?_, ?_⟩
  · rw [hset, List.length_set]
    exact h.length
  · intro hsessions
    rcases hcounter with ⟨hbefore, hafter, hcounter⟩ | ⟨hsame, hcounter⟩
    · have hpos : 1 ≤ s.alive :=
        List.countP_pos_iff.mpr ⟨_, List.getElem_mem hi, decide_eq_true hbefore⟩
      rw [hcounter, h.counter hsessions, halive, if_pos hbefore, if_neg (not_not_intro hafter),
        Nat.add_zero, Int32.ofNat_sub _ _ hpos]
      rfl
    · rw [hcounter, h.counter hsessions, halive]
      by_cases hfailed : s.connections[i].status = .failed
      · rw [if_neg (not_not_intro hfailed), if_neg (not_not_intro (hsame.mpr hfailed))]
        rfl
      · have hpos : 1 ≤ s.alive :=
          List.countP_pos_iff.mpr ⟨_, List.getElem_mem hi, decide_eq_true hfailed⟩
        rw [if_pos hfailed, if_pos (mt hsame.mp hfailed), Nat.sub_add_cancel hpos]

theorem Reaches.counted {blockSize sessions : Int32} {history : List Event} {s : Client}
    (h : Reaches blockSize sessions history s) : Counted sessions s :=
  AbortingRun.Reaches.invariant h (counted_start sessions)
    fun _ _ _ hs hevent hstep => hs.step hevent hstep

/-- As long as a connection has not failed, the counter is not zero. -/
theorem Counted.counter_ne_zero {sessions : Int32} {s : Client} (h : Counted sessions s)
    {entry : Entry} (hentry : entry ∈ s.connections) (hstatus : entry.status = .connected) :
    s.counters.counter ≠ 0 := by
  have hlength := h.length
  have hpos := List.length_pos_of_mem hentry
  have hlt := intLen_lt sessions
  have hle : s.alive ≤ s.connections.length := List.countP_le_length
  have halive : 1 ≤ s.alive := by
    refine List.countP_pos_iff.mpr ⟨entry, hentry, decide_eq_true ?_⟩
    rw [hstatus]
    decide
  have hsessions : 0 ≤ sessions := by
    rw [Int32.le_iff_toInt_le, Int32.toInt_zero]
    unfold intLen at hlength
    omega
  rw [h.counter hsessions]
  intro hzero
  have hint := congrArg Int32.toInt hzero
  rw [Int32.toInt_ofNat_of_lt (by omega), Int32.toInt_zero] at hint
  omega

/-! ## The report -/

/-- **The timer reports** exactly when every connection is connected and open, and the sum of
what they have counted is a `ssize_t`: at any other connection the program ends. -/
theorem reports_iff {blockSize sessions : Int32} {history : List Event} {s : Client}
    (h : Reaches blockSize sessions history s)
    (hsome : ∃ entry ∈ s.connections, entry.status = .connected) :
    Reports s ↔ (∀ entry ∈ s.connections, entry.IsOpen) ∧
      -2 ^ 63 ≤ s.bytesRead ∧ s.bytesRead < 2 ^ 63 := by
  have hcounted := h.counted
  obtain ⟨entry, hentry, hstatus⟩ := hsome
  have hcounter := hcounted.counter_ne_zero hentry hstatus
  constructor
  · rintro ⟨t, totalBytes, htimeout, htotal, -⟩
    rw [onTimeout, if_neg hcounter] at htimeout
    obtain ⟨⟨total, connections⟩, hreport, htimeout⟩ := AbortingRun.bind_eq_ok.mp htimeout
    have hle := totalBytes.le_toInt
    have hlt := totalBytes.toInt_lt
    rw [htotal] at hle hlt
    exact ⟨isOpen_of_report hreport, hle, hlt⟩
  · rintro ⟨hopen, hle, hlt⟩
    have hreport := report_of_isOpen hopen 0
    refine ⟨{ s with connections := s.connections.map fun entry => { entry with shut := true } },
      0 + Int64.ofInt s.bytesRead, ?_, ?_, ?_⟩
    · rw [onTimeout, if_neg hcounter, hreport]
      rfl
    · rw [Int64.zero_add, Int64.toInt_ofInt_of_le hle hlt]
    · intro i entry hentry _
      simp [hentry]

/-- Two connections, both made, and one answer. -/
def bothConnected : List Event :=
  [.connect 1 0 0, .connect 0 0 0, .read 1 4096 (commonAllocBuffer 65536) 0]

theorem reports_iff_bothConnected :
    ∃ s, Reaches 4096 2 bothConnected s ∧ s.bytesRead = 4096 ∧ Reports s := by
  obtain ⟨s, hs, hbytes, hopen⟩ : ∃ s, AbortingRun.runEnabled (step 4096) Enabled (start 2)
      bothConnected = some s ∧ s.bytesRead = 4096 ∧
        (∀ entry ∈ s.connections, entry.IsOpen) ∧
          ∃ entry ∈ s.connections, entry.status = .connected :=
    ⟨_, rfl, by decide, by decide, by decide⟩
  have hreaches : Reaches 4096 2 bothConnected s := AbortingRun.Reaches.start.of_runEnabled hs
  refine ⟨s, hreaches, hbytes, (reports_iff hreaches hopen.2).mpr ⟨hopen.1, ?_, ?_⟩⟩ <;>
    rw [hbytes] <;> decide

/-- Two connections, of which the second is refused (`ECONNREFUSED`). -/
def oneRefused : List Event := [.connect 0 0 0, .connect 1 (-111) 0]

/-- The program ends in the loop, with `ENOTCONN`. -/
theorem not_reports_oneRefused :
    ∃ s, Reaches 4096 2 oneRefused s ∧ (∃ entry ∈ s.connections, entry.status = .connected) ∧
      ¬Reports s := by
  obtain ⟨s, hs, hsome, htimeout⟩ : ∃ s, AbortingRun.runEnabled (step 4096) Enabled (start 2)
      oneRefused = some s ∧ (∃ entry ∈ s.connections, entry.status = .connected) ∧
        onTimeout s = .error (.exit uvEnotconn) :=
    ⟨_, rfl, by decide, rfl⟩
  refine ⟨s, AbortingRun.Reaches.start.of_runEnabled hs, hsome, ?_⟩
  rintro ⟨t, totalBytes, hok, -⟩
  rw [htimeout] at hok
  cases hok

end Timeout

end LearnUv.PingPong
