import LearnUv.PingPong.GoServer

/-!
# The Go programs of `pingpong` together

A connection of `client.go`, and the `connect` of `server.go` that serves it.  The client
has two goroutines for it: one copies `bufs` to the connection, the other writes back what
it reads.  A third one waits for the timer and closes the connection.

Of the two goroutines that write, one waits until the `Write` of the other has returned.  A
`Write` passes its bytes on piece by piece, as there is room for them, and fails only when the
connection was closed; a write that has failed is followed by writes that pass nothing on.  A
`Read` returns bytes or an error.

The connection holds a bounded number of bytes in each direction (`Sockets`): what the sockets
of both ends have room for.  A `Write` into a connection that is full waits until the other
end has read something.  That is what makes the two programs depend on each other, for the
server reads nothing while it is in a `Write`, and neither does the loop of the client.

## Main Definitions

* `Sockets` — how much the connection holds
* `bufs`, `Copy`, `Echo` — the goroutines of the client
* `Session`, `step` — a connection with both of its ends
* `circulating` — the bytes that were written, or are still to be, and have not come round
-/

namespace LearnUv.GoPingPong

/-- How many bytes the connection holds in each direction.  It is some. -/
structure Sockets where
  /-- On their way to the server. -/
  toServer : ℕ
  /-- On their way to the client. -/
  toClient : ℕ
  toServer_pos : 0 < toServer
  toClient_pos : 0 < toClient

/-- `bufs`: a negative `blocksize` makes it empty. -/
def bufs (blocksize : ℤ) : List UInt8 :=
  (List.range blocksize.toNat).map fun i => UInt8.ofNat (i % 128)

/-- `io.Copy(conn, bytes.NewReader(bufs))`, which is one `conn.Write(bufs)`. -/
inductive Copy
  | ready
  /-- In the write, of which `sent` bytes have been passed on. -/
  | writing (sent : ℕ)
  /-- `wc` and whether there was an error. -/
  | returned (wc : ℕ) (err : Bool)
  deriving DecidableEq, Repr

/-- Where the loop over `rbuf` is. -/
inductive EchoPhase
  /-- In `conn.Read(rbuf)`. -/
  | reading
  /-- In `conn.Write(rbuf[:rc])`, while the other goroutine may be in its write. -/
  | waiting (rc : ℕ)
  /-- In the write, of which `sent` bytes have been passed on. -/
  | writing (rc sent : ℕ)
  /-- Left, after an error. -/
  | ended
  deriving DecidableEq, Repr

/-- The loop over `rbuf`, with what it has read and passed on. -/
structure Echo where
  phase : EchoPhase
  rbuf : CharArray bufSize
  read : List UInt8
  passed : List UInt8

/-- A connection with both of its ends. -/
structure Session where
  copy : Copy
  echo : Echo
  /-- `connect` in the server. -/
  server : Loop
  /-- What the write of the server has passed on. -/
  serverSent : ℕ
  /-- All that the client has passed on, and all that the server has. -/
  toServer : List UInt8
  toClient : List UInt8
  /-- `conn.Close` was called. -/
  closed : Bool

/-- What happens in the goroutines. -/
inductive SessionEvent
  | copyBegin
  | copyPass (k : ℕ)
  | copyReturn (err : Bool)
  | echoRead (data : List UInt8) (err : Bool)
  | echoBegin
  | echoPass (k : ℕ)
  | echoReturn (err : Bool)
  | serverRead (data : List UInt8) (err : Option ReadError)
  | serverPass (k : ℕ)
  | serverReturn (err : Bool)
  /-- The timer fires. -/
  | close
  deriving DecidableEq, Repr

/-- What of `bufs` the copy has passed on. -/
def Copy.sent : Copy → ℕ
  | .ready => 0
  | .writing sent => sent
  | .returned wc _ => wc

/-- The copy is in its write. -/
def Copy.isWriting : Copy → Bool
  | .ready => false
  | .writing _ => true
  | .returned _ _ => false

/-- The loop is in its write. -/
def EchoPhase.isWriting : EchoPhase → Bool
  | .reading => false
  | .waiting _ => false
  | .writing _ _ => true
  | .ended => false

/-- What the loop has read and not passed on. -/
def Echo.held (e : Echo) : List UInt8 :=
  match e.phase with
  | .reading => []
  | .waiting rc => e.rbuf.bytes.take rc
  | .writing rc sent => (e.rbuf.bytes.take rc).drop sent
  | .ended => []

namespace Session

variable (blocksize : ℤ) (sockets : Sockets)

/-- After `net.Dial`. -/
def start : Session where
  copy := .ready
  echo := ⟨.reading, CharArray.zeros bufSize, [], []⟩
  server := GoPingPong.start
  serverSent := 0
  toServer := []
  toClient := []
  closed := false

/-- One event. -/
def step (s : Session) : SessionEvent → Exec Session
  | .copyBegin =>
      -- a reader that is empty is copied without a write
      .ok { s with copy := if bufs blocksize = [] then .returned 0 false else .writing 0 }
  | .copyPass k =>
      match s.copy with
      | .writing sent =>
          .ok { s with
            copy := .writing (sent + k)
            toServer := s.toServer ++ ((bufs blocksize).drop sent).take k }
      | _ => .ok s
  | .copyReturn err =>
      match s.copy with
      | .writing sent => .ok { s with copy := .returned sent err }
      | _ => .ok s
  | .echoRead data err =>
      match s.echo.phase with
      | .reading => do
          let rbuf ← s.echo.rbuf.store 0 data
          let phase := if err then .ended else .waiting data.length
          let echo := { s.echo with phase, rbuf, read := s.echo.read ++ data }
          return { s with echo }
      | _ => .ok s
  | .echoBegin =>
      match s.echo.phase with
      | .waiting rc => .ok { s with echo := { s.echo with phase := .writing rc 0 } }
      | _ => .ok s
  | .echoPass k =>
      match s.echo.phase with
      | .writing rc sent =>
          let bytes := ((s.echo.rbuf.bytes.take rc).drop sent).take k
          .ok { s with
            echo := { s.echo with
              phase := .writing rc (sent + k)
              passed := s.echo.passed ++ bytes }
            toServer := s.toServer ++ bytes }
      | _ => .ok s
  | .echoReturn err =>
      match s.echo.phase with
      | .writing _ _ =>
          .ok { s with echo := { s.echo with phase := if err then .ended else .reading } }
      | _ => .ok s
  | .serverRead data err => do
      let server ← GoPingPong.step s.server (.read data err)
      return { s with server, serverSent := 0 }
  | .serverPass k =>
      .ok { s with
        serverSent := s.serverSent + k
        toClient := s.toClient ++ (s.server.current.drop s.serverSent).take k }
  | .serverReturn err => do
      let server ← GoPingPong.step s.server (.wrote s.serverSent err)
      return { s with server, serverSent := 0 }
  | .close => .ok { s with closed := true }

/-- What the client has passed on and the server has not read. -/
def onTheWay (s : Session) : ℕ := s.toServer.length - s.server.read.length

/-- What the server has passed on and the client has not read. -/
def onTheWayBack (s : Session) : ℕ := s.toClient.length - s.echo.read.length

/-- Which events may happen. -/
def Enabled (s : Session) : SessionEvent → Prop
  | .copyBegin => s.copy = .ready ∧ s.echo.phase.isWriting = false
  | .copyPass k => s.closed = false ∧ s.copy.isWriting = true ∧ 0 < k ∧
      s.copy.sent + k ≤ (bufs blocksize).length ∧ s.onTheWay + k ≤ sockets.toServer
  | .copyReturn err => s.copy.isWriting = true ∧
      if err then s.closed = true else s.copy.sent = (bufs blocksize).length
  | .echoRead data err => s.echo.phase = .reading ∧ data.length ≤ bufSize ∧
      data <+: s.toClient.drop s.echo.read.length ∧
      if err then data = [] ∧ s.closed = true else data ≠ []
  | .echoBegin => (∃ rc, s.echo.phase = .waiting rc) ∧ s.copy.isWriting = false
  | .echoPass k => s.closed = false ∧ 0 < k ∧ s.onTheWay + k ≤ sockets.toServer ∧
      ∃ rc sent, s.echo.phase = .writing rc sent ∧ sent + k ≤ rc
  | .echoReturn err =>
      ∃ rc sent, s.echo.phase = .writing rc sent ∧ if err then s.closed = true else sent = rc
  | .serverRead data err => GoPingPong.Enabled s.server (.read data err) ∧
      data <+: s.toServer.drop s.server.read.length ∧
      if err = none then data ≠ [] else data = [] ∧ s.closed = true
  | .serverPass k => s.server.writeFailed = false ∧ 0 < k ∧
      s.onTheWayBack + k ≤ sockets.toClient ∧
      ∃ c, s.server.phase = .writing c ∧ s.serverSent + k ≤ c
  | .serverReturn err => GoPingPong.Enabled s.server (.wrote s.serverSent err) ∧
      (err = true → s.closed = true)
  | .close => s.closed = false

/-- The states a connection reaches, with the events that led there. -/
def Reaches (history : List SessionEvent) (s : Session) : Prop :=
  AbortingRun.Reaches (step blocksize) (Enabled blocksize sockets) start history s

/-- What the server has read and not passed on. -/
def serverHeld (s : Session) : List UInt8 := s.server.current.drop s.serverSent

/-- The bytes that were written, or are still to be, and have not come round, from the one
that comes round next: those the client holds, those on the way to it, those the server
holds, those on the way to it, and those that have not been written. -/
def circulating (s : Session) : List UInt8 :=
  s.echo.held ++ s.toClient.drop s.echo.read.length ++ s.serverHeld ++
    s.toServer.drop s.server.read.length ++ (bufs blocksize).drop s.copy.sent

end Session

end LearnUv.GoPingPong
