import LearnUv.Echo.EchoClient

/-!
# What `echo_client` relays

After `on_connect` each handle knows the one it is copied to, and no callback changes that.
A handle that is open is one of a program that has closed none, because a callback that
closes one closes all three; so nothing is closed twice.

`Invariant` says of each direction what was read from one handle and what was given to the
other, and that the writes which have not completed are those that were given last.  A read
extends both sides by the same bytes, a completed write neither, so the two directions are
relayed after any sequence of these.  A handle that ends closes the others, and from then on
libuv calls back with nothing but what was still queued.

## Main Definitions

* `State.Wired` — the handles know each other
* `Invariant` — what is known of the program after its events

## Main Results

* `State.Wired.step_terminal`, `State.Wired.step_data` — what a read leads to
* `relays_of_onConnect` — both directions are relayed, after every sequence of reads and
  completed writes
-/

namespace LearnUv.EchoClient

/-! ## The handles after `on_connect` -/

/-- The handles know each other. -/
structure State.Wired (s : State) : Prop where
  pipeStdin : s.globals.pipeStdin = some .stdin
  pipeStdout : s.globals.pipeStdout = some .stdout
  dataConnection : s.globals.data .connection = some .stdout
  dataStdin : s.globals.data .stdin = some .connection
  readersConnection : ∀ cb, s.readers .connection = some cb → cb = .onReadConnection
  readersStdin : ∀ cb, s.readers .stdin = some cb → cb = .onReadStdin
  readersStdout : s.readers .stdout = none

section ReadStart

variable (s : State) (result : Int32) (stream : Handle) (cb : ReadCb)

@[simp] theorem globals_readStart : (s.readStart result stream cb).globals = s.globals := by
  unfold State.readStart
  split <;> rfl

@[simp] theorem closed_readStart : (s.readStart result stream cb).closed = s.closed := by
  unfold State.readStart
  split <;> rfl

@[simp] theorem submitted_readStart : (s.readStart result stream cb).submitted = s.submitted := by
  unfold State.readStart
  split <;> rfl

@[simp] theorem pending_readStart : (s.readStart result stream cb).pending = s.pending := by
  unfold State.readStart
  split <;> rfl

variable {s result stream cb}

/-- A stream that is read from was read from before, or is read from now. -/
theorem readers_readStart {other : Handle} {cb' : ReadCb}
    (h : (s.readStart result stream cb).readers other = some cb') :
    s.readers other = some cb' ∨ other = stream ∧ cb' = cb := by
  unfold State.readStart at h
  split at h
  · exact Or.inl h
  · by_cases heq : other = stream
    · subst heq
      simp only [Function.update_self, Option.some.injEq] at h
      exact Or.inr ⟨rfl, h.symm⟩
    · simp only [Function.update_of_ne heq] at h
      exact Or.inl h

end ReadStart

/-- Nothing is read, written or closed in `on_connect`. -/
theorem onConnect_spec {allocated : List ℕ} {memory : ℕ → List UInt8} {results : ConnectResults}
    {s : State} (h : onConnect (waiting allocated memory) results = .ok s) :
    s.Wired ∧ s.closed = [] ∧ s.submitted = (fun _ => []) ∧ s.pending = fun _ => [] := by
  unfold onConnect at h
  split at h
  · cases h
  · obtain ⟨-, -, h⟩ := AbortingRun.bind_eq_ok.mp h
    obtain ⟨-, -, h⟩ := AbortingRun.bind_eq_ok.mp h
    obtain ⟨-, -, h⟩ := AbortingRun.bind_eq_ok.mp h
    obtain ⟨-, -, h⟩ := AbortingRun.bind_eq_ok.mp h
    obtain ⟨-, -, h⟩ := AbortingRun.bind_eq_ok.mp h
    cases h
    refine ⟨⟨?_, ?_, ?_, ?_, ?_, ?_, ?_⟩, ?_, ?_, ?_⟩
    · simp
    · simp
    · simp
    · simp
    · intro cb hcb
      rcases readers_readStart hcb with hcb | ⟨heq, -⟩
      · rcases readers_readStart hcb with hcb | ⟨-, hcb⟩
        · cases hcb
        · exact hcb
      · cases heq
    · intro cb hcb
      rcases readers_readStart hcb with hcb | ⟨-, hcb⟩
      · rcases readers_readStart hcb with hcb | ⟨heq, -⟩
        · cases hcb
        · cases heq
      · exact hcb
    · refine Option.eq_none_iff_forall_ne_some.mpr ?_
      intro cb hcb
      rcases readers_readStart hcb with hcb | ⟨heq, -⟩
      · rcases readers_readStart hcb with hcb | ⟨heq, -⟩
        · cases hcb
        · cases heq
      · cases heq
    · simp [waiting]
    · simp [waiting]
    · simp [waiting]

/-! ## One event -/

/-- The stream that the bytes of a stream are written to. -/
def Handle.target : Handle → Handle
  | .connection => .stdout
  | .stdin => .connection
  | .stdout => .connection

section Fill

variable (s : State) (base : Option ℕ) (bytes : List UInt8)

@[simp] theorem globals_fill : (s.fill base bytes).globals = s.globals := by cases base <;> rfl

@[simp] theorem readers_fill : (s.fill base bytes).readers = s.readers := by cases base <;> rfl

@[simp] theorem closed_fill : (s.fill base bytes).closed = s.closed := by cases base <;> rfl

@[simp] theorem submitted_fill : (s.fill base bytes).submitted = s.submitted := by
  cases base <;> rfl

@[simp] theorem pending_fill : (s.fill base bytes).pending = s.pending := by cases base <;> rfl

theorem bytesAt_fill (base : ℕ) {nread : Int64} (hnread : 0 ≤ nread)
    (hlen : bytes.length = nread.toInt.toNat) (hsize : bytes.length ≤ suggestedSize.toNat) :
    bytesAt (s.fill (some base) bytes).memory ⟨some base, (uvBufInit nread.toUInt64).len⟩ =
      bytes := by
  have hnat : nread.toUInt64.toNat = bytes.length := by
    rw [Int64.toNat_toUInt64_of_le hnread, hlen]
    rfl
  have hsmall : suggestedSize.toNat < 2 ^ 32 := by decide
  rw [uvBufInit_len (by omega)]
  show (Function.update s.memory base bytes base).take nread.toUInt64.toNat = bytes
  rw [Function.update_self, hnat, List.take_length]

end Fill

namespace State.Wired

variable {s : State} {stream : Handle} {base : Option ℕ} {nread : Int64} {bytes : List UInt8}

/-- It is a matter of the globals and of the callbacks. -/
theorem congr (hs : s.Wired) {t : State} (hglobals : t.globals = s.globals)
    (hreaders : t.readers = s.readers) : t.Wired where
  pipeStdin := hglobals ▸ hs.pipeStdin
  pipeStdout := hglobals ▸ hs.pipeStdout
  dataConnection := hglobals ▸ hs.dataConnection
  dataStdin := hglobals ▸ hs.dataStdin
  readersConnection := hreaders ▸ hs.readersConnection
  readersStdin := hreaders ▸ hs.readersStdin
  readersStdout := hreaders ▸ hs.readersStdout

/-- A stream that is read from has the callback that is meant for it. -/
theorem reader_cases (hs : s.Wired) (h : (s.readers stream).isSome = true) :
    (stream = .connection ∧ s.readers stream = some .onReadConnection) ∨
      (stream = .stdin ∧ s.readers stream = some .onReadStdin) := by
  obtain ⟨cb, hcb⟩ := Option.isSome_iff_exists.mp h
  cases stream with
  | connection => exact Or.inl ⟨rfl, by rw [hcb, hs.readersConnection cb hcb]⟩
  | stdin => exact Or.inr ⟨rfl, by rw [hcb, hs.readersStdin cb hcb]⟩
  | stdout =>
      rw [hs.readersStdout] at hcb
      cases hcb

/-- **The end of an input** closes the three handles, in one of two orders. -/
theorem step_terminal (hs : s.Wired) (h : Enabled s (.read stream base nread bytes))
    (hnread : nread < 0) :
    ∃ handles, handles.Perm [.connection, .stdin, .stdout] ∧
      step s (.read stream base nread bytes) =
        .ok { s.fill base bytes with closed := s.closed ++ handles } := by
  rcases hs.reader_cases h.1 with ⟨rfl, hreader⟩ | ⟨rfl, hreader⟩
  · refine ⟨[.connection, .stdout, .stdin], by decide, ?_⟩
    simp [step, hreader, onReadConnection, hnread, hs.dataConnection, hs.pipeStdin, deref,
      State.perform]
  · refine ⟨[.stdin, .connection, .stdout], by decide, ?_⟩
    simp [step, hreader, onReadStdin, hnread, hs.dataStdin, hs.pipeStdout, deref,
      State.perform]

/-- **What is read** is written to the other stream.  Of the connection, a read of nothing
is not. -/
theorem step_data (hs : s.Wired) (h : Enabled s (.read stream base nread bytes))
    (hnread : 0 ≤ nread) :
    step s (.read stream base nread bytes) = .ok ((s.fill base bytes).perform
        (.write stream.target ⟨base, (uvBufInit nread.toUInt64).len⟩)) ∨
      (bytes = [] ∧ step s (.read stream base nread bytes) = .ok (s.fill base bytes)) := by
  have hneg : ¬nread < 0 := Int64.not_lt.mpr hnread
  obtain ⟨hsome, -, halloc, hlen, -⟩ := h
  obtain ⟨block, rfl⟩ : ∃ block, base = some block := by
    cases base with
    | some block => exact ⟨block, rfl⟩
    | none => exact absurd halloc hneg
  rcases hs.reader_cases hsome with ⟨rfl, hreader⟩ | ⟨rfl, hreader⟩
  · by_cases hzero : nread = 0
    · subst hzero
      refine Or.inr ⟨List.eq_nil_of_length_eq_zero hlen, ?_⟩
      simp [step, hreader, onReadConnection]
    · refine Or.inl ?_
      simp [step, hreader, onReadConnection, hneg, hzero, hs.dataConnection, deref,
        commonAllocBuffer, Handle.target]
  · refine Or.inl ?_
    simp [step, hreader, onReadStdin, hneg, hs.dataStdin, deref, commonAllocBuffer,
      Handle.target]

end State.Wired

/-! ## Whole runs -/

/-- What is known of the program after its events. -/
structure Invariant (history : List Event) (s : State) : Prop where
  wired : s.Wired
  submitted : ∀ stream, stream ≠ .stdout → s.submitted stream.target = bytesRead stream history
  kept : ∀ stream, ∀ write ∈ s.pending stream, bytesAt s.memory write.buf = write.bytes
  /-- Writes refer to memory that was given out. -/
  owned : ∀ stream, ∀ write ∈ s.pending stream, ∀ base, write.buf.base = some base →
    base ∈ s.allocated
  /-- All is open as long as no input ended, and all closed once then. -/
  closed : (s.closed = [] ∧ ∀ event ∈ history, ¬event.IsTerminal) ∨
    s.closed.Perm [.connection, .stdin, .stdout]

/-- What was read from a stream, one event later. -/
theorem bytesRead_concat (stream : Handle) (history : List Event) (event : Event) :
    bytesRead stream (history ++ [event]) =
      bytesRead stream history ++ event.bytesFrom stream := by
  simp [bytesRead]

/-- What holds of a list and of one element more. -/
theorem forall_mem_concat {α : Type} {P : α → Prop} {xs : List α} {x : α}
    (hxs : ∀ y ∈ xs, P y) (hx : P x) : ∀ y ∈ xs ++ [x], P y :=
  List.forall_mem_append.mpr ⟨hxs, List.forall_mem_singleton.mpr hx⟩

namespace Invariant

variable {history : List Event} {s t : State}

/-- A handle that is not closed is in a program that has closed none. -/
theorem closed_eq_nil (h : Invariant history s) {handle : Handle} (hopen : handle ∉ s.closed) :
    s.closed = [] ∧ ∀ event ∈ history, ¬event.IsTerminal := by
  rcases h.closed with hnone | hall
  · exact hnone
  · refine absurd (hall.mem_iff.mpr ?_) hopen
    cases handle <;> decide

/-- Memory that is given out is not what a write refers to. -/
theorem bytesAt_fill_of_pending (h : Invariant history s) {base : Option ℕ} {nread : Int64}
    (halloc : s.Allocates base nread) (bytes : List UInt8) {stream : Handle} {write : Write}
    (hwrite : write ∈ s.pending stream) :
    bytesAt (s.fill base bytes).memory write.buf = write.bytes := by
  rw [← h.kept stream write hwrite]
  cases base with
  | none => rfl
  | some base =>
      unfold bytesAt
      cases hbuf : write.buf.base with
      | none => rfl
      | some block =>
          have hne : block ≠ base := by
            rintro rfl
            exact halloc (h.owned stream write hwrite block hbuf)
          show (Function.update s.memory base bytes block).take _ = _
          rw [Function.update_of_ne hne]

/-- The blocks of the writes under way are allocated, and stay so while a read fills its own. -/
theorem owned_fill (h : Invariant history s) (base : Option ℕ) (bytes : List UInt8)
    {stream : Handle} {write : Write} (hwrite : write ∈ s.pending stream) {block : ℕ}
    (hblock : write.buf.base = some block) : block ∈ (s.fill base bytes).allocated := by
  have hmem := h.owned stream write hwrite block hblock
  cases base with
  | none => exact hmem
  | some base => exact List.mem_cons_of_mem _ hmem

/-- A read that brought nothing, and is not written. -/
theorem fill (h : Invariant history s) {stream : Handle} {base : Option ℕ} {nread : Int64}
    (hevent : Enabled s (.read stream base nread [])) (hnread : ¬nread < 0) :
    Invariant (history ++ [.read stream base nread []]) (s.fill base []) where
  wired := h.wired.congr (globals_fill s base []) (readers_fill s base [])
  submitted := by
    intro source hsource
    rw [submitted_fill, h.submitted source hsource, bytesRead_concat]
    simp [Event.bytesFrom]
  kept := by
    rw [pending_fill]
    exact fun _ _ hwrite => h.bytesAt_fill_of_pending hevent.2.2.1 [] hwrite
  owned := by
    rw [pending_fill]
    exact fun _ _ hwrite _ hblock => h.owned_fill base [] hwrite hblock
  closed := by
    obtain ⟨hnone, hhistory⟩ := h.closed_eq_nil hevent.2.1
    rw [closed_fill]
    exact Or.inl ⟨hnone, forall_mem_concat hhistory hnread⟩

/-- A read that is written. -/
theorem write (h : Invariant history s) {stream : Handle} {block : ℕ} {nread : Int64}
    {bytes : List UInt8} (hevent : Enabled s (.read stream (some block) nread bytes))
    (hnread : 0 ≤ nread) :
    Invariant (history ++ [.read stream (some block) nread bytes])
      ((s.fill (some block) bytes).perform
        (.write stream.target ⟨some block, (uvBufInit nread.toUInt64).len⟩)) := by
  obtain ⟨hsome, hopen, halloc, hlen, hsize⟩ := hevent
  have hbytes := bytesAt_fill s bytes block hnread hlen hsize
  have hstream : stream ≠ .stdout := by
    rintro rfl
    rw [h.wired.readersStdout] at hsome
    cases hsome
  have hpending : ∀ target, ∀ write ∈ ((s.fill (some block) bytes).perform (.write stream.target
      ⟨some block, (uvBufInit nread.toUInt64).len⟩)).pending target,
      write ∈ s.pending target ∨
        write = ⟨⟨some block, (uvBufInit nread.toUInt64).len⟩, bytes⟩ := by
    intro target write hwrite
    simp only [State.perform, hbytes, pending_fill, Function.update_apply] at hwrite
    split at hwrite
    · next htarget =>
        rw [← htarget, List.mem_append, List.mem_singleton] at hwrite
        exact hwrite
    · exact Or.inl hwrite
  refine ⟨h.wired.congr (globals_fill s _ bytes) (readers_fill s _ bytes), ?_, ?_, ?_, ?_⟩
  · intro source hsource
    simp only [State.perform, hbytes, submitted_fill, Function.update_apply, bytesRead_concat,
      Event.bytesFrom]
    by_cases hsame : source = stream
    · subst hsame
      rw [if_pos rfl, if_pos rfl, h.submitted source hsource]
    · have htarget : source.target ≠ stream.target := by
        cases source <;> cases stream <;> simp_all [Handle.target]
      rw [if_neg htarget, if_neg (Ne.symm hsame), List.append_nil, h.submitted source hsource]
  · intro target write hwrite
    rcases hpending target write hwrite with hwrite | rfl
    · exact h.bytesAt_fill_of_pending halloc bytes hwrite
    · exact hbytes
  · intro target write hwrite base hbase
    rcases hpending target write hwrite with hwrite | rfl
    · exact h.owned_fill _ bytes hwrite hbase
    · cases hbase
      exact List.mem_cons_self
  · obtain ⟨hnone, hhistory⟩ := h.closed_eq_nil hopen
    exact Or.inl ⟨hnone, forall_mem_concat hhistory (Int64.not_lt.mpr hnread)⟩

/-- The end of an input. -/
theorem terminal (h : Invariant history s) {stream : Handle} {base : Option ℕ} {nread : Int64}
    {bytes : List UInt8} (hevent : Enabled s (.read stream base nread bytes))
    (hnread : nread < 0) {handles : List Handle}
    (hhandles : handles.Perm [.connection, .stdin, .stdout]) :
    Invariant (history ++ [.read stream base nread bytes])
      { s.fill base bytes with closed := s.closed ++ handles } := by
  obtain ⟨-, hopen, halloc, hlen, -⟩ := hevent
  have hnil : bytes = [] := by
    refine List.eq_nil_of_length_eq_zero ?_
    have hneg := Int64.lt_iff_toInt_lt.mp hnread
    rw [Int64.toInt_zero] at hneg
    omega
  refine ⟨h.wired.congr (globals_fill s _ bytes) (readers_fill s _ bytes), ?_, ?_, ?_, ?_⟩
  · intro source hsource
    show (s.fill base bytes).submitted source.target = _
    rw [submitted_fill, h.submitted source hsource, bytesRead_concat, hnil]
    simp [Event.bytesFrom]
  · show ∀ target, ∀ write ∈ (s.fill base bytes).pending target, _
    rw [pending_fill]
    exact fun _ _ hwrite => h.bytesAt_fill_of_pending halloc bytes hwrite
  · show ∀ target, ∀ write ∈ (s.fill base bytes).pending target, _
    rw [pending_fill]
    exact fun _ _ hwrite _ hblock => h.owned_fill base bytes hwrite hblock
  · rw [(h.closed_eq_nil hopen).1]
    exact Or.inr hhandles

/-- A write is complete. -/
theorem written (h : Invariant history s) (stream : Handle) (status : Int32) :
    Invariant (history ++ [.written stream status])
      { s with pending := Function.update s.pending stream (s.pending stream).tail } := by
  have hpending : ∀ target, ∀ write ∈ Function.update s.pending stream (s.pending stream).tail
      target, write ∈ s.pending target := by
    intro target write hwrite
    rw [Function.update_apply] at hwrite
    split at hwrite
    · next htarget => exact htarget ▸ List.mem_of_mem_tail hwrite
    · exact hwrite
  refine ⟨h.wired.congr rfl rfl, ?_, ?_, ?_, ?_⟩
  · intro source hsource
    rw [bytesRead_concat]
    simpa [Event.bytesFrom] using h.submitted source hsource
  · exact fun target write hwrite => h.kept target write (hpending target write hwrite)
  · exact fun target write hwrite => h.owned target write (hpending target write hwrite)
  · rcases h.closed with ⟨hnone, hhistory⟩ | hall
    · exact Or.inl ⟨hnone, forall_mem_concat hhistory id⟩
    · exact Or.inr hall

/-- **An enabled event** is handled, and keeps the invariant. -/
theorem step_spec (h : Invariant history s) {event : Event} (hevent : Enabled s event) :
    ∃ t, step s event = .ok t ∧ Invariant (history ++ [event]) t := by
  cases event with
  | written stream status => exact ⟨_, rfl, h.written stream status⟩
  | read stream base nread bytes =>
      by_cases hnread : nread < 0
      · obtain ⟨handles, hhandles, hstep⟩ := h.wired.step_terminal hevent hnread
        exact ⟨_, hstep, h.terminal hevent hnread hhandles⟩
      · rcases h.wired.step_data hevent (Int64.not_lt.mp hnread) with hstep | ⟨rfl, hstep⟩
        · cases base with
          | none => exact absurd hevent.2.2.1 hnread
          | some block => exact ⟨_, hstep, h.write hevent (Int64.not_lt.mp hnread)⟩
        · exact ⟨_, hstep, h.fill hevent hnread⟩

/-- What the invariant says of the purpose of the program. -/
theorem relays (h : Invariant history s) : Relays history s where
  toConnection := h.submitted .stdin (by decide)
  toStdout := h.submitted .connection (by decide)
  kept := h.kept
  notReused := fun source base nread bytes hevent stream write hwrite hbase =>
    hevent.2.2.1 (h.owned stream write hwrite base hbase)
  closedOnce := by
    intro handle
    rcases h.closed with ⟨hnone, -⟩ | hall
    · rw [hnone]
      exact Nat.zero_le 1
    · rw [hall.count_eq]
      cases handle <;> decide
  allClosed := by
    rintro ⟨event, hevent, hterminal⟩ handle
    rcases h.closed with ⟨-, hhistory⟩ | hall
    · exact absurd hterminal (hhistory event hevent)
    · rw [hall.mem_iff]
      cases handle <;> decide
  runsOn := by
    intro event hevent
    obtain ⟨t, hstep, -⟩ := h.step_spec hevent
    exact ⟨t, hstep⟩

end Invariant

/-- **Both directions are relayed**, and the handles closed once, whatever is read and in
whatever order. -/
theorem relays_of_onConnect {allocated : List ℕ} {memory : ℕ → List UInt8} {results : ConnectResults}
    {s₀ : State} (hconnect : onConnect (waiting allocated memory) results = .ok s₀)
    {history : List Event} {s : State} (h : AbortingRun.Reaches step Enabled s₀ history s) :
    Relays history s := by
  have hinvariant : Invariant history s := by
    induction h with
    | start =>
        obtain ⟨hwired, hclosed, hsubmitted, hpending⟩ := onConnect_spec hconnect
        refine ⟨hwired, ?_, ?_, ?_, Or.inl ⟨hclosed, by simp⟩⟩
        · intro stream _
          rw [hsubmitted]
          rfl
        · simp [hpending]
        · simp [hpending]
    | @event history s t event _ hevent hstep ih =>
        obtain ⟨t', hstep', hinvariant⟩ := ih.step_spec hevent
        rwa [AbortingRun.ok_unique hstep hstep']
  exact hinvariant.relays

/-- All calls succeed. -/
def connected : ConnectResults := ⟨0, 0, 0, 0, 0, 0, 0⟩

/-- Two lines from the standard input and an empty read, an answer, and the end of the
connection. -/
def exchange : List Event :=
  [.read .stdin (some 1) 2 [104, 105], .written .connection 0, .read .stdin (some 2) 0 [],
    .read .connection (some 3) 1 [121], .read .stdin (some 4) 1 [33],
    .read .connection (some 5) (-4095) []]

theorem relays_of_onConnect_exchange : ∃ s₀ s, onConnect (waiting [] fun _ => []) connected = .ok s₀ ∧
    AbortingRun.Reaches step Enabled s₀ exchange s ∧ Relays exchange s ∧
      s.submitted .connection = [104, 105, 33] ∧ s.submitted .stdout = [121] := by
  obtain ⟨s₀, hconnect, hrun⟩ : ∃ s₀, onConnect (waiting [] fun _ => []) connected = .ok s₀ ∧
      (AbortingRun.runEnabled step Enabled s₀ exchange).isSome = true :=
    ⟨_, rfl, by decide⟩
  obtain ⟨s, hs⟩ := Option.isSome_iff_exists.mp hrun
  have hreaches : AbortingRun.Reaches step Enabled s₀ exchange s :=
    AbortingRun.Reaches.start.of_runEnabled hs
  have hrelays : Relays exchange s := relays_of_onConnect hconnect hreaches
  exact ⟨s₀, s, hconnect, hreaches, hrelays, hrelays.toConnection, hrelays.toStdout⟩

end LearnUv.EchoClient
