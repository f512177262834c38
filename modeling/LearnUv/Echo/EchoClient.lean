import LearnUv.Common.Memory

/-!
# `echo_client`

The client of the echo server copies what it reads from its standard input to the
connection, and what it reads from the connection to its standard output.  Each of the
two callbacks finds the handle it writes to in the `data` field of the one it reads from,
and at the end of its input closes all three: that one, the one in the field, and the
third through a global.

The memory that is read into comes from `malloc`, whose choice is part of the event; all
that is known of it is that it has not been given out before and not freed since.  The
program frees none of it.

## Main Definitions

* `onReadConnection`, `onReadStdin`, `onConnect` — the callbacks of the source
* `State`, `step` — the handles, and what one event makes of them
* `Relays` — both directions are copied exactly, and the handles closed once
-/

namespace LearnUv.EchoClient

/-- The streams of the program. -/
inductive Handle
  /-- The `client` of `main`. -/
  | connection
  | stdin
  | stdout
  deriving DecidableEq, Repr

/-- `uv_buf_t`. -/
structure Buf where
  /-- A block of memory, or `NULL`. -/
  base : Option ℕ
  len : UInt64
  deriving DecidableEq, Repr

/-- The read callbacks. -/
inductive ReadCb
  | onReadConnection
  | onReadStdin
  deriving DecidableEq, Repr

/-- What a callback has libuv do. -/
inductive Action
  /-- `uv_close`. -/
  | close (handle : Handle)
  /-- `uv_write` with `common_on_write_end`, which does nothing. -/
  | write (handle : Handle) (buf : Buf)
  deriving DecidableEq, Repr

/-- The globals, and the `data` fields of the handles. -/
structure Globals where
  pipeStdin : Option Handle
  pipeStdout : Option Handle
  data : Handle → Option Handle

/-- Use of a pointer that may be `NULL`. -/
def deref (pointer : Option Handle) : Exec Handle :=
  match pointer with
  | some handle => .ok handle
  | none => .error .outOfBounds

/-- `on_read_connection`. -/
def onReadConnection (g : Globals) (stream : Handle) (nread : Int64) (buf : Buf) :
    Exec (List Action) := do
  if nread < 0 then
    let dataHandle ← deref (g.data stream)
    let pipeStdin ← deref g.pipeStdin
    return [.close stream, .close dataHandle, .close pipeStdin]
  else if nread = 0 then
    return []
  else
    let streamStdout ← deref (g.data stream)
    return [.write streamStdout ⟨buf.base, (uvBufInit nread.toUInt64).len⟩]

/-- `on_read_stdin`: a read of nothing is written like any other. -/
def onReadStdin (g : Globals) (stream : Handle) (nread : Int64) (buf : Buf) :
    Exec (List Action) := do
  if nread < 0 then
    let dataHandle ← deref (g.data stream)
    let pipeStdout ← deref g.pipeStdout
    return [.close stream, .close dataHandle, .close pipeStdout]
  else
    let connectionStream ← deref (g.data stream)
    return [.write connectionStream ⟨buf.base, (uvBufInit nread.toUInt64).len⟩]

/-- The size libuv suggests for a read. -/
def suggestedSize : UInt64 := 65536

/-- `common_alloc_buffer`, where `malloc` returns `base`: without memory the buffer is left
as libuv has made it. -/
def commonAllocBuffer (base : Option ℕ) (suggestedSize : UInt64) : Buf :=
  match base with
  | some base => ⟨some base, suggestedSize⟩
  | none => ⟨none, 0⟩

/-! ## The program and libuv -/

/-- A write that is not complete. -/
structure Write where
  buf : Buf
  /-- What the buffer held when the write was submitted. -/
  bytes : List UInt8
  deriving DecidableEq, Repr

/-- The program while it runs. -/
structure State where
  globals : Globals
  /-- The callback of the handles that are read from. -/
  readers : Handle → Option ReadCb
  /-- The handles that `uv_close` was called with. -/
  closed : List Handle
  /-- The blocks that `malloc` has given out. -/
  allocated : List ℕ
  memory : ℕ → List UInt8
  /-- What was handed to `uv_write`. -/
  submitted : Handle → List UInt8
  pending : Handle → List Write

/-- What libuv tells the program. -/
inductive Event
  /-- `alloc_cb` and then `read_cb`: `malloc` returns `base`, and `bytes` are read. -/
  | read (stream : Handle) (base : Option ℕ) (nread : Int64) (bytes : List UInt8)
  /-- The oldest write is complete. -/
  | written (stream : Handle) (status : Int32)
  deriving DecidableEq, Repr

/-- The bytes at the front of a block. -/
def bytesAt (memory : ℕ → List UInt8) (buf : Buf) : List UInt8 :=
  match buf.base with
  | some base => (memory base).take buf.len.toNat
  | none => []

/-- What libuv does at once. -/
def State.perform (s : State) : Action → State
  | .close handle => { s with closed := s.closed ++ [handle] }
  | .write handle buf =>
      { s with
        submitted := Function.update s.submitted handle
          (s.submitted handle ++ bytesAt s.memory buf)
        pending := Function.update s.pending handle
          (s.pending handle ++ [⟨buf, bytesAt s.memory buf⟩]) }

/-- The block is given out, and bytes are read into its front. -/
def State.fill (s : State) (base : Option ℕ) (bytes : List UInt8) : State :=
  match base with
  | some base =>
      { s with
        allocated := base :: s.allocated
        memory := Function.update s.memory base bytes }
  | none => s

/-- One event. -/
def step (s : State) : Event → Exec State
  | .read stream base nread bytes => do
      let buf := commonAllocBuffer base suggestedSize
      let s := s.fill base bytes
      let actions ← match s.readers stream with
        | some .onReadConnection => onReadConnection s.globals stream nread buf
        | some .onReadStdin => onReadStdin s.globals stream nread buf
        | none => .ok []
      return actions.foldl State.perform s
  | .written stream _ =>
      .ok { s with pending := Function.update s.pending stream (s.pending stream).tail }

/-- What `malloc` may return before a read: memory that is not in use, or none, in which
case libuv reports an error. -/
def State.Allocates (s : State) (base : Option ℕ) (nread : Int64) : Prop :=
  match base with
  | some base => base ∉ s.allocated
  | none => nread < 0

instance (s : State) (base : Option ℕ) (nread : Int64) : Decidable (s.Allocates base nread) :=
  match base with
  | some base => inferInstanceAs (Decidable (base ∉ s.allocated))
  | none => inferInstanceAs (Decidable (nread < 0))

/-- What libuv may tell the program. -/
def Enabled (s : State) : Event → Prop
  | .read stream base nread bytes =>
      (s.readers stream).isSome = true ∧ stream ∉ s.closed ∧ s.Allocates base nread ∧
        bytes.length = nread.toInt.toNat ∧ bytes.length ≤ suggestedSize.toNat
  | .written stream _ => s.pending stream ≠ []

instance (s : State) (event : Event) : Decidable (Enabled s event) :=
  match event with
  | .read stream base nread bytes =>
      inferInstanceAs (Decidable ((s.readers stream).isSome = true ∧ stream ∉ s.closed ∧
        s.Allocates base nread ∧ bytes.length = nread.toInt.toNat ∧
          bytes.length ≤ suggestedSize.toNat))
  | .written stream _ => inferInstanceAs (Decidable (s.pending stream ≠ []))

/-- What the calls of `on_connect` return. -/
structure ConnectResults where
  status : Int32
  stdoutInit : Int32
  stdoutOpen : Int32
  /-- Not looked at. -/
  connectionRead : Int32
  stdinInit : Int32
  stdinOpen : Int32
  stdinRead : Int32

/-- `uv_read_start`. -/
def State.readStart (s : State) (result : Int32) (stream : Handle) (cb : ReadCb) : State :=
  if result < 0 then s else { s with readers := Function.update s.readers stream (some cb) }

/-- `on_connect`. -/
def onConnect (s : State) (results : ConnectResults) : Exec State := do
  if results.status < 0 then
    .error (.exit 1)
  else
    let s := { s with globals.pipeStdout := some .stdout }
    checkUv results.stdoutInit
    checkUv results.stdoutOpen
    let s := { s with
      globals.data := Function.update s.globals.data .connection s.globals.pipeStdout }
    let s := s.readStart results.connectionRead .connection .onReadConnection
    let s := { s with globals.pipeStdin := some .stdin }
    checkUv results.stdinInit
    checkUv results.stdinOpen
    let s := { s with
      globals.data := Function.update s.globals.data .stdin (some .connection) }
    checkUv results.stdinRead
    return s.readStart results.stdinRead .stdin .onReadStdin

/-- The program that waits for its connection. -/
def waiting (allocated : List ℕ) (memory : ℕ → List UInt8) : State where
  globals := ⟨none, none, fun _ => none⟩
  readers := fun _ => none
  closed := []
  allocated := allocated
  memory := memory
  submitted := fun _ => []
  pending := fun _ => []

/-! ## What the program is for -/

/-- What a read of a stream brings. -/
def Event.bytesFrom (stream : Handle) : Event → List UInt8
  | .read source _ _ bytes => if source = stream then bytes else []
  | .written _ _ => []

/-- The end of an input, or an error. -/
def Event.IsTerminal : Event → Prop
  | .read _ _ nread _ => nread < 0
  | .written _ _ => False

/-- All that was read from a stream. -/
def bytesRead (stream : Handle) (history : List Event) : List UInt8 :=
  history.flatMap (Event.bytesFrom stream)

/-- Both directions are copied exactly, and the handles closed once. -/
structure Relays (history : List Event) (s : State) : Prop where
  toConnection : s.submitted .connection = bytesRead .stdin history
  toStdout : s.submitted .stdout = bytesRead .connection history
  /-- What a write refers to is there until it is complete. -/
  kept : ∀ stream, ∀ write ∈ s.pending stream, bytesAt s.memory write.buf = write.bytes
  /-- And is not what is read into next. -/
  notReused : ∀ source base nread bytes, Enabled s (.read source (some base) nread bytes) →
    ∀ stream, ∀ write ∈ s.pending stream, write.buf.base ≠ some base
  closedOnce : ∀ handle, s.closed.count handle ≤ 1
  allClosed : (∃ event ∈ history, event.IsTerminal) → ∀ handle, handle ∈ s.closed
  /-- No callback follows a pointer that is not there. -/
  runsOn : ∀ event, Enabled s event → ∃ t, step s event = .ok t

end LearnUv.EchoClient
