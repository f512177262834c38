import LearnUv.Common.Memory
import LearnUv.Library.AbortingRun
import Mathlib.Logic.Function.Basic

/-!
# `filetransfer`

The server sends a file to every client that connects.  A transfer is a chain of libuv
requests, each one started by the callback of the one before: open, read, write, read and
so on until the end of the file, then shutdown, close of the file, close of the handle.
The callbacks of `filetransfer.cpp` are below, in their order.

A callback is a function of what libuv hands it and of the memory it reads; what it does
is a list of `Action`s.  The chain of one client is a `Transfer`, and the clients share
the global `buf`, which libuv fills at any time between `uv_fs_read` and its callback.

## Main Definitions

* `onShutdown`, `onWriteEnd`, `onTcpClose`, `onFsClose`, `onRead`, `onFileOpen`,
  `onNewConnection` — the callbacks
* `Transfer` — the context of a client, and the request libuv has not called back for
* `System`, `System.step`, `System.Enabled` — all transfers, and what libuv does

The asserts compare pointers that are set once, so they hold.
-/

namespace LearnUv.FileTransfer

/-- `FILE_BUF`. -/
def fileBuf : ℕ := 8192

/-- The requests of a context that hold memory of libuv. -/
inductive FsReq
  | openReq
  | readReq
  deriving DecidableEq, Repr

/-- What a callback does. -/
inductive Action
  /-- A field of `ctx` is read or written. -/
  | useCtx
  /-- `free(ctx)`. -/
  | freeCtx
  /-- `uv_fs_req_cleanup`. -/
  | cleanup (req : FsReq)
  /-- `uv_fs_open`. -/
  | fsOpen
  /-- `uv_fs_read`. -/
  | fsRead (file : Int64)
  /-- `uv_write`, with the bytes the buffer it is handed holds. -/
  | write (bytes : List UInt8)
  /-- `uv_shutdown`. -/
  | shutdown
  /-- `uv_fs_close`. -/
  | fsClose (file : Int64)
  /-- `uv_close` of the client's handle. -/
  | uvClose
  deriving DecidableEq, Repr

/-! ## The callbacks -/

/-- `on_shutdown`. -/
def onShutdown (openResult : Int64) (status : Int32) : List Action :=
  if status < 0 then []
  else [.useCtx, .fsClose openResult]

/-- `on_write_end`. -/
def onWriteEnd (openResult : Int64) (status : Int32) : List Action :=
  if status < 0 then []
  else [.useCtx, .fsRead openResult]

/-- `on_tcp_close`. -/
def onTcpClose : List Action :=
  [.useCtx, .cleanup .openReq, .useCtx, .cleanup .readReq, .freeCtx]

/-- `on_fs_close`. -/
def onFsClose : List Action := [.useCtx, .uvClose]

/-- `on_read`.  `tBuf` is what the memory of the local array holds. -/
def onRead (buf tBuf : CharArray fileBuf) (result : Int64) : Exec (List Action) :=
  if result < 0 then
    return [.useCtx, .cleanup .readReq, .useCtx, .cleanup .openReq]
  else if result = 0 then
    return [.useCtx, .shutdown]
  else do
    let tBuf ← tBuf.memcpy buf.bytes result.toUInt64
    -- the NUL is counted in what is written
    let tBuf ← tBuf.store result.toUInt64.toNat [0]
    let tcpBuf := uvBufInit (result.toUInt64 + 1)
    return [.useCtx, .write (tcpBuf.bytes tBuf)]

/-- `on_file_open`. -/
def onFileOpen (result : Int64) : List Action :=
  if result ≥ 0 then [.useCtx, .fsRead result]
  else
    -- the handle is not closed
    [.cleanup .openReq, .freeCtx]

/-! ## A transfer -/

/-- What is read at once. -/
structure Chunk where
  bytes : List UInt8
  /-- It fits into the buffer. -/
  length_le : bytes.length ≤ fileBuf
  deriving DecidableEq

/-- An error code of libuv. -/
structure UvError where
  code : Int64
  neg : code < 0
  deriving DecidableEq

/-- How a read ended. -/
inductive ReadOutcome
  | failed (error : UvError)
  | read (chunk : Chunk)
  deriving DecidableEq

/-- `req->result`. -/
def ReadOutcome.result : ReadOutcome → Int64
  | .failed error => error.code
  | .read chunk => Int64.ofNat chunk.bytes.length

/-- The bytes libuv put at the front of the buffer. -/
def ReadOutcome.bytes : ReadOutcome → List UInt8
  | .failed _ => []
  | .read chunk => chunk.bytes

/-- A request libuv has not called back for. -/
inductive Request
  | fsOpen
  | fsRead
  /-- The read is over, but `on_read` has not been called. -/
  | fsReadDone (outcome : ReadOutcome)
  | write
  | shutdown
  | fsClose
  /-- The closing of the handle. -/
  | uvClose
  deriving DecidableEq

/-- The request is a read that is over. -/
def Request.isReadDone : Request → Bool
  | .fsReadDone _ => true
  | _ => false

/-- The request an action starts. -/
def Action.request : Action → Option Request
  | .fsOpen => some .fsOpen
  | .fsRead _ => some .fsRead
  | .write _ => some .write
  | .shutdown => some .shutdown
  | .fsClose _ => some .fsClose
  | .uvClose => some .uvClose
  | .useCtx => none
  | .freeCtx => none
  | .cleanup _ => none

/-- The transfer to one client. -/
structure Transfer where
  /-- `ctx->open_req->result`, once `on_file_open` was called. -/
  openResult : Int64
  /-- The request in progress: no callback starts more than one. -/
  pending : Option Request
  /-- Where the file is read next. -/
  position : ℕ
  /-- What the callbacks have done. -/
  done : List Action
  deriving DecidableEq

namespace Transfer

/-- A callback has returned.  `started` is what libuv returned for the request it started:
a request that was refused is never called back. -/
def react (t : Transfer) (started : Int32) (actions : List Action) : Transfer :=
  { t with
    pending := if started < 0 then none else actions.findSome? Action.request
    done := t.done ++ actions }

/-- The buffers that were handed to `uv_write`. -/
def handed (t : Transfer) : List (List UInt8) :=
  t.done.filterMap fun action =>
    match action with
    | .write bytes => some bytes
    | _ => none

end Transfer

/-- A transfer whose file is to be opened. -/
def Transfer.begun : Transfer := ⟨0, some .fsOpen, 0, [.useCtx, .fsOpen]⟩

/-- `on_new_connection`: the transfer that begins.  `accepted` and `opened` are what
`uv_accept` and `uv_fs_open` return. -/
def onNewConnection (status accepted opened : Int32) : Exec (Option Transfer) :=
  if status < 0 then return none
  else do
    checkUv accepted
    checkUv opened
    return some Transfer.begun

/-! ## All transfers -/

/-- What libuv does for one client.  `started` is what it returns for the request that the
callback starts. -/
inductive Event
  /-- `on_new_connection`. -/
  | connection (status accepted opened : Int32)
  /-- `on_file_open`. -/
  | opened (result : Int64) (started : Int32)
  /-- A read puts at most `n` bytes of the file into the buffer. -/
  | fill (n : ℕ)
  | readFails (error : UvError)
  /-- `on_read`. -/
  | read (tBuf : CharArray fileBuf) (started : Int32)
  /-- `on_write_end`. -/
  | written (status started : Int32)
  /-- `on_shutdown`. -/
  | shutDown (status started : Int32)
  /-- `on_fs_close`. -/
  | fsClosed
  /-- `on_tcp_close`. -/
  | tcpClosed
  deriving DecidableEq

section Files

variable (file : List UInt8)

/-- The next bytes of the file, as many as are asked for and fit into the buffer. -/
def chunkAt (position n : ℕ) : Chunk :=
  ⟨(file.drop position).take (min n fileBuf), by
    rw [List.length_take]
    omega⟩

/-- What the event puts at the front of the buffer. -/
def Event.stored (t : Transfer) : Event → List UInt8
  | .fill n => (chunkAt file t.position n).bytes
  | _ => []

namespace Transfer

/-- What the event does to the transfer it is for. -/
def step (buf : CharArray fileBuf) (t : Transfer) : Event → Exec Transfer
  | .connection _ _ _ => return t
  | .opened result started => return { t with openResult := result }.react started (onFileOpen result)
  | .fill n => return { t with
      pending := some (.fsReadDone (.read (chunkAt file t.position n)))
      position := t.position + (chunkAt file t.position n).bytes.length }
  | .readFails error => return { t with pending := some (.fsReadDone (.failed error)) }
  | .read tBuf started =>
      match t.pending with
      | some (.fsReadDone outcome) => do
          let actions ← onRead buf tBuf outcome.result
          return t.react started actions
      | _ => return t
  | .written status started => return t.react started (onWriteEnd t.openResult status)
  | .shutDown status started => return t.react started (onShutdown t.openResult status)
  | .fsClosed => return t.react 0 onFsClose
  | .tcpClosed => return t.react 0 onTcpClose

/-- The event is the one the pending request waits for; a read gives no bytes only at the
end of the file. -/
def Awaits (t : Transfer) : Event → Prop
  | .connection _ _ _ => False
  | .opened _ _ => t.pending = some .fsOpen
  | .fill n => t.pending = some .fsRead ∧ (n = 0 → file.length ≤ t.position)
  | .readFails _ => t.pending = some .fsRead
  | .read _ _ => t.pending.any Request.isReadDone = true
  | .written _ _ => t.pending = some .write
  | .shutDown _ _ => t.pending = some .shutdown
  | .fsClosed => t.pending = some .fsClose
  | .tcpClosed => t.pending = some .uvClose

variable {file} in
theorem exists_outcome_of_awaits {t : Transfer} {tBuf : CharArray fileBuf} {started : Int32}
    (h : t.Awaits file (.read tBuf started)) :
    ∃ outcome, t.pending = some (.fsReadDone outcome) := by
  obtain ⟨request, hpending, hdone⟩ := (Option.any_eq_true _ _).mp h
  cases request with
  | fsReadDone outcome => exact ⟨outcome, hpending⟩
  | _ => cases hdone

instance decidableAwaits (t : Transfer) (event : Event) : Decidable (t.Awaits file event) :=
  match event with
  | .connection _ _ _ => inferInstanceAs (Decidable False)
  | .opened _ _ => inferInstanceAs (Decidable (_ = _))
  | .fill _ => inferInstanceAs (Decidable (_ ∧ (_ → _)))
  | .readFails _ => inferInstanceAs (Decidable (_ = _))
  | .read _ _ => inferInstanceAs (Decidable (_ = _))
  | .written _ _ => inferInstanceAs (Decidable (_ = _))
  | .shutDown _ _ => inferInstanceAs (Decidable (_ = _))
  | .fsClosed => inferInstanceAs (Decidable (_ = _))
  | .tcpClosed => inferInstanceAs (Decidable (_ = _))

end Transfer

/-- The server: the memory of the global `buf`, and the transfers of the connections. -/
structure System where
  buf : CharArray fileBuf
  transfer : ℕ → Option Transfer

namespace System

/-- No connection yet. -/
def start (buf : CharArray fileBuf) : System := ⟨buf, fun _ => none⟩

/-- The transfer of a client is another one now. -/
def put (s : System) (i : ℕ) (t : Option Transfer) : System :=
  { s with transfer := Function.update s.transfer i t }

@[simp] theorem transfer_put_self (s : System) (i : ℕ) (t : Option Transfer) :
    (s.put i t).transfer i = t := by simp [put]

@[simp] theorem transfer_put_of_ne (s : System) {i j : ℕ} (h : j ≠ i) (t : Option Transfer) :
    (s.put i t).transfer j = s.transfer j := by simp [put, h]

@[simp] theorem buf_put (s : System) (i : ℕ) (t : Option Transfer) :
    (s.put i t).buf = s.buf := rfl

/-- An event of one client. -/
def step (s : System) : ℕ × Event → Exec System
  | (i, .connection status accepted opened) => do
      let t ← onNewConnection status accepted opened
      return s.put i t
  | (i, event) =>
      match s.transfer i with
      | none => return s
      | some t => do
          let buf ← s.buf.store 0 (event.stored file t)
          let t ← t.step file buf event
          return { s with buf }.put i (some t)

/-- Whether the transfer of a client waits for the event. -/
def decideAwaited (s : System) (i : ℕ) (event : Event) :
    Decidable (∃ t, s.transfer i = some t ∧ t.Awaits file event) :=
  match h : s.transfer i with
  | none => .isFalse (by simp)
  | some t => decidable_of_iff (t.Awaits file event) (by simp)

/-- Which events can happen: a new connection has a client of its own. -/
def Enabled (s : System) : ℕ × Event → Prop
  | (i, .connection _ _ _) => s.transfer i = none
  | (i, event) => ∃ t, s.transfer i = some t ∧ t.Awaits file event

instance decidableEnabled (s : System) (occurrence : ℕ × Event) :
    Decidable (s.Enabled file occurrence) :=
  match occurrence with
  | (_, .connection _ _ _) => inferInstanceAs (Decidable (_ = _))
  | (i, .opened _ _) => decideAwaited file s i _
  | (i, .fill _) => decideAwaited file s i _
  | (i, .readFails _) => decideAwaited file s i _
  | (i, .read _ _) => decideAwaited file s i _
  | (i, .written _ _) => decideAwaited file s i _
  | (i, .shutDown _ _) => decideAwaited file s i _
  | (i, .fsClosed) => decideAwaited file s i _
  | (i, .tcpClosed) => decideAwaited file s i _

/-- The states that are reached from the start, with what has happened. -/
def Reaches (memory : CharArray fileBuf) (history : List (ℕ × Event)) (s : System) : Prop :=
  AbortingRun.Reaches (step file) (Enabled file) (start memory) history s

/-- The state a history leads to, computed. -/
def runEvents (memory : CharArray fileBuf) (history : List (ℕ × Event)) : Option System :=
  AbortingRun.runEnabled (step file) (Enabled file) (start memory) history

/-- What is computed of a state is true of one that is reached. -/
theorem exists_reaches_of_map {β : Type} {memory : CharArray fileBuf}
    {history : List (ℕ × Event)} {f : System → β} {b : β}
    (h : (runEvents file memory history).map f = some b) :
    ∃ s, Reaches file memory history s ∧ f s = b := by
  obtain ⟨s, hs, rfl⟩ := Option.map_eq_some_iff.mp h
  exact ⟨s, AbortingRun.Reaches.start.of_runEnabled hs, rfl⟩

/-- The buffers that were handed to `uv_write` for a client. -/
def handed (s : System) (i : ℕ) : List (List UInt8) :=
  match s.transfer i with
  | none => []
  | some t => t.handed

end System

end Files

/-! ## What a read is answered with -/

section OnRead

variable (buf tBuf : CharArray fileBuf)

theorem onRead_failed (error : UvError) :
    onRead buf tBuf (ReadOutcome.failed error).result =
      .ok [.useCtx, .cleanup .readReq, .useCtx, .cleanup .openReq] := if_pos error.neg

theorem onRead_eof {chunk : Chunk} (h : chunk.bytes = []) :
    onRead buf tBuf (ReadOutcome.read chunk).result = .ok [.useCtx, .shutdown] := by
  rw [ReadOutcome.result, h]
  rfl

variable {buf tBuf}

/-- The result of a read that brought something is its length, as a size too. -/
theorem result_of_ne_nil {chunk : Chunk} (h : chunk.bytes ≠ []) :
    ¬(ReadOutcome.read chunk).result < 0 ∧ (ReadOutcome.read chunk).result ≠ 0 ∧
      (ReadOutcome.read chunk).result.toUInt64.toNat = chunk.bytes.length := by
  have hle := chunk.length_le
  have hpos := List.length_pos_iff.mpr h
  unfold fileBuf at hle
  have hint : (ReadOutcome.read chunk).result.toInt = chunk.bytes.length :=
    Int64.toInt_ofNat_of_lt (by omega)
  refine ⟨?_, ?_, ?_⟩
  · rw [Int64.lt_iff_toInt_lt, hint, Int64.toInt_zero]
    omega
  · intro hzero
    rw [hzero, Int64.toInt_zero] at hint
    omega
  · rw [ReadOutcome.result, Int64.toUInt64_ofNat', UInt64.toNat_ofNat',
      Nat.mod_eq_of_lt (by omega)]

/-- **What was read is handed on with a NUL behind it**, if that fits. -/
theorem onRead_chunk {chunk : Chunk} (h : chunk.bytes ≠ [])
    (hfits : chunk.bytes.length < fileBuf) :
    onRead buf tBuf (ReadOutcome.read chunk).result =
      .ok [.useCtx, .write (buf.bytes.take chunk.bytes.length ++ [0])] := by
  obtain ⟨hneg, hzero, hlen⟩ := result_of_ne_nil h
  have hbuf : chunk.bytes.length ≤ buf.bytes.length := by
    rw [buf.length_eq]
    exact hfits.le
  have hsrc : (ReadOutcome.read chunk).result.toUInt64.toNat ≤ buf.bytes.length := by
    rw [hlen]
    exact hbuf
  obtain ⟨tBuf₁, hcopy, hbytes₁⟩ :=
    tBuf.memcpy_of_fits hsrc (show _ ≤ fileBuf by rw [hlen]; exact hfits.le)
  have hnul : chunk.bytes.length + [(0 : UInt8)].length ≤ fileBuf := hfits
  obtain ⟨tBuf₂, hstore, hbytes₂⟩ := tBuf₁.store_of_fits hnul
  have hcopied : (buf.bytes.take chunk.bytes.length).length = chunk.bytes.length := by
    rw [List.length_take, Nat.min_eq_left hbuf]
  have hsum : ((ReadOutcome.read chunk).result.toUInt64 + 1).toNat = chunk.bytes.length + 1 := by
    unfold fileBuf at hfits
    rw [UInt64.toNat_add, hlen]
    exact Nat.mod_eq_of_lt (by show chunk.bytes.length + 1 < 2 ^ 64; omega)
  have hwritten : (uvBufInit ((ReadOutcome.read chunk).result.toUInt64 + 1)).bytes tBuf₂ =
      buf.bytes.take chunk.bytes.length ++ [0] := by
    have hfront := take_overwrite_zero tBuf.bytes (buf.bytes.take chunk.bytes.length)
    rw [hcopied] at hfront
    have hroom : chunk.bytes.length ≤ tBuf₁.bytes.length := by
      rw [tBuf₁.length_eq]
      exact hfits.le
    unfold fileBuf at hfits
    rw [UvBuf.bytes, uvBufInit_len (by rw [hsum]; omega), hsum, hbytes₂]
    have htake := @take_overwrite tBuf₁.bytes [0] chunk.bytes.length hroom
    rw [List.length_singleton] at htake
    rw [htake, hbytes₁, hlen, hfront]
  rw [onRead, if_neg hneg, if_neg hzero, hcopy, AbortingRun.ok_bind, hlen, hstore,
    AbortingRun.ok_bind, ← hwritten]
  rfl

/-- **The NUL does not fit** behind a read that fills the buffer. -/
theorem onRead_full {chunk : Chunk} (h : chunk.bytes.length = fileBuf) :
    onRead buf tBuf (ReadOutcome.read chunk).result = .error .outOfBounds := by
  have hne : chunk.bytes ≠ [] := by
    rintro hnil
    rw [hnil] at h
    cases h
  obtain ⟨hneg, hzero, hlen⟩ := result_of_ne_nil hne
  have hsrc : (ReadOutcome.read chunk).result.toUInt64.toNat ≤ buf.bytes.length := by
    rw [hlen, buf.length_eq, h]
  obtain ⟨tBuf₁, hcopy, -⟩ := tBuf.memcpy_of_fits hsrc (show _ ≤ fileBuf by rw [hlen, h])
  have hstore : tBuf₁.store fileBuf [0] = .error .outOfBounds :=
    tBuf₁.store_of_not_fits (by rw [List.length_singleton]; exact Nat.lt_succ_self _)
  rw [onRead, if_neg hneg, if_neg hzero, hcopy, AbortingRun.ok_bind, hlen, h, hstore]
  rfl

end OnRead

/-! ## What an event changes -/

theorem onNewConnection_cases {status accepted opened : Int32} {t : Option Transfer}
    (h : onNewConnection status accepted opened = .ok t) : t = none ∨ t = some .begun := by
  rw [onNewConnection] at h
  split at h
  · cases h
    exact Or.inl rfl
  · obtain ⟨-, -, h⟩ := AbortingRun.bind_eq_ok.mp h
    obtain ⟨-, -, h⟩ := AbortingRun.bind_eq_ok.mp h
    cases h
    exact Or.inr rfl

namespace System

variable {file : List UInt8} {s s' : System} {i : ℕ} {event : Event}

/-- What an event of a client leads to. -/
inductive Outcome (file : List UInt8) (s : System) (i : ℕ) (event : Event) (s' : System) :
    Prop
  /-- There is no connection, and nothing has happened. -/
  | refused (status accepted opened : Int32) (hevent : event = .connection status accepted opened)
      (hnew : s.transfer i = none) (hanswer : onNewConnection status accepted opened = .ok none)
      (hs : s' = s)
  /-- A transfer begins. -/
  | begun (status accepted opened : Int32) (hevent : event = .connection status accepted opened)
      (hnew : s.transfer i = none)
      (hanswer : onNewConnection status accepted opened = .ok (some .begun))
      (hs : s' = s.put i (some .begun))
  /-- The transfer goes on, with what was read at the front of the buffer. -/
  | next (t t' : Transfer) (buf : CharArray fileBuf) (ht : s.transfer i = some t)
      (hawaits : t.Awaits file event) (hstore : s.buf.store 0 (event.stored file t) = .ok buf)
      (hstep : t.step file buf event = .ok t')
      (hs : s' = { s with buf }.put i (some t'))

/-- An event that is awaited takes the transfer a step further. -/
theorem step_of_awaits {t : Transfer} (ht : s.transfer i = some t)
    (hawaits : t.Awaits file event) :
    s.step file (i, event) = do
      let buf ← s.buf.store 0 (event.stored file t)
      let t ← t.step file buf event
      return { s with buf }.put i (some t) := by
  cases event with
  | connection status accepted opened => cases hawaits
  | _ => simp only [step, ht]

/-- Such an event, if libuv reads nothing. -/
theorem step_eq_ok {t t' : Transfer} (ht : s.transfer i = some t)
    (hawaits : t.Awaits file event) (hstored : event.stored file t = [])
    (hstep : t.step file s.buf event = .ok t') :
    s.step file (i, event) = .ok (s.put i (some t')) := by
  rw [step_of_awaits ht hawaits, hstored, CharArray.store_zero_nil, AbortingRun.ok_bind, hstep]
  rfl

theorem enabled_of_awaits {t : Transfer} (ht : s.transfer i = some t)
    (hawaits : t.Awaits file event) : s.Enabled file (i, event) := by
  cases event with
  | connection status accepted opened => cases hawaits
  | _ => exact ⟨t, ht, hawaits⟩

/-- **Every event** begins a transfer or takes one a step further. -/
theorem step_cases (henabled : s.Enabled file (i, event))
    (hstep : s.step file (i, event) = .ok s') : Outcome file s i event s' := by
  by_cases hconnection : ∃ status accepted opened, event = .connection status accepted opened
  · obtain ⟨status, accepted, opened, rfl⟩ := hconnection
    have hnew : s.transfer i = none := henabled
    obtain ⟨t, ht, hs⟩ := AbortingRun.bind_eq_ok.mp hstep
    cases hs
    rcases onNewConnection_cases ht with rfl | rfl
    · -- there was no transfer before, so to put none changes nothing
      refine .refused status accepted opened rfl hnew ht ?_
      rw [put, ← hnew, Function.update_eq_self]
    · exact .begun status accepted opened rfl hnew ht rfl
  · obtain ⟨t, ht, hawaits⟩ : ∃ t, s.transfer i = some t ∧ t.Awaits file event := by
      cases event with
      | connection status accepted opened => exact absurd ⟨_, _, _, rfl⟩ hconnection
      | _ => exact henabled
    rw [step_of_awaits ht hawaits] at hstep
    obtain ⟨buf, hstore, hstep⟩ := AbortingRun.bind_eq_ok.mp hstep
    obtain ⟨t', hnext, hs⟩ := AbortingRun.bind_eq_ok.mp hstep
    cases hs
    exact .next t t' buf ht hawaits hstore hnext rfl

/-- The other transfers are left alone. -/
theorem Outcome.transfer_of_ne (h : Outcome file s i event s') {j : ℕ} (hj : j ≠ i) :
    s'.transfer j = s.transfer j := by
  cases h with
  | refused _ _ _ _ _ _ hs => rw [hs]
  | begun _ _ _ _ _ _ hs => rw [hs, transfer_put_of_ne _ hj]
  | next t t' buf _ _ _ _ hs => rw [hs, transfer_put_of_ne _ hj]

end System

end LearnUv.FileTransfer
