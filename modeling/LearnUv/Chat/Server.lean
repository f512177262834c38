import LearnUv.Chat.Codec

/-!
# `ChatServer`

The server of `chat`: it accepts connections, decodes what they send with one `Codec`,
and sends every message it decodes to every connection.  `connection.h` and the
callbacks of `ChatServer.cpp` are below, in their order; each is a function of the
globals of the program, of the heap and of the libuv handles.

libuv itself is the environment.  An event is a callback it makes (`Event`), and which
callbacks it may make in a state is `Enabled`: a connection may come at any time, and a
read callback comes for a handle that is being read.

A connection is an object on the heap with a handle in it, and both are named by addresses
that are given out in order and never used again; using one that was freed ends the run.  The
broadcasts are recorded, each with the connections there were and what was written to them,
so that results can say who was sent what.

## Main Definitions

* `Connection` — `class Connection`, with `send`
* `Server` — the state of the program
* `onRead`, `onConnection`, `onStringMessageBack` — its callbacks
* `Reaches` — the states it reaches, with the events that led there
-/

namespace LearnUv

/-- A `Connection *`. -/
structure ConnPtr where
  addr : ℕ
  deriving DecidableEq, Repr

/-- A `uv_tcp_t *`. -/
structure Handle where
  addr : ℕ
  deriving DecidableEq, Repr

/-- `class Connection`. -/
structure Connection where
  id_ : Int32
  handle_ : Handle
  sendBuf : CharArray 8192
  deriving DecidableEq

/-- `Connection::send`: the connection, and what `uv_write` is given. -/
def Connection.send (conn : Connection) (buf : List UInt8) (len : UInt64) :
    Exec (Connection × UvBuf) := do
  let (sendBuf, ub) ← stage conn.sendBuf buf len
  return ({ conn with sendBuf }, ub)

/-- A `uv_tcp_t`, as far as the program sees it. -/
structure Stream where
  /-- `data`, which `uv_tcp_init` does not set. -/
  data : Option ConnPtr
  /-- `uv_read_start` was called, and `uv_close` was not. -/
  reading : Bool
  /-- How often `uv_close` was called. -/
  closes : ℕ
  deriving DecidableEq, Repr

/-- A `uv_write` to a connection, with the bytes its buffer held at the call. -/
structure Write where
  conn : ConnPtr
  handle : Handle
  bytes : List UInt8
  deriving DecidableEq, Repr

/-- A call of `onStringMessageBack`: the message, the connections there were, and the
writes that were submitted. -/
structure Broadcast where
  msg : List UInt8
  conns : List ConnPtr
  writes : List Write
  deriving DecidableEq, Repr

/-- The state of the program. -/
structure Server where
  conns : List ConnPtr
  codec : Codec
  buf : Buffer
  connections : Int32
  /-- The `Connection` objects there are. -/
  heap : ConnPtr → Option Connection
  /-- The handles there are: they are allocated and never freed. -/
  streams : Handle → Option Stream
  /-- The addresses from here on have never been given out. -/
  allocated : ℕ
  /-- What was broadcast so far. -/
  broadcasts : List Broadcast

namespace Server

/-- The object a `Connection *` points to. -/
def deref (s : Server) (conn : ConnPtr) : Exec Connection :=
  match s.heap conn with
  | some c => .ok c
  | none => .error .outOfBounds

/-- The handle a `uv_stream_t *` points to. -/
def stream (s : Server) (h : Handle) : Exec Stream :=
  match s.streams h with
  | some st => .ok st
  | none => .error .outOfBounds

/-- `(Connection *)stream->data`. -/
def streamData (s : Server) (h : Handle) : Exec ConnPtr := do
  let st ← s.stream h
  match st.data with
  | some conn => .ok conn
  | none => .error .outOfBounds

/-- `uv_close`. -/
def uvClose (s : Server) (h : Handle) : Exec Server := do
  let st ← s.stream h
  let st : Stream := { st with reading := false, closes := st.closes + 1 }
  return { s with streams := Function.update s.streams h (some st) }

/-- `delete(conn)`, with the destructor. -/
def deleteConn (s : Server) (conn : ConnPtr) : Exec Server := do
  let c ← s.deref conn
  let s ← s.uvClose c.handle_
  return { s with heap := Function.update s.heap conn none }

/-- The loop of `onStringMessageBack` over the connections that are left. -/
def sendAll (buf : List UInt8) (len : UInt64) :
    List ConnPtr → Server → Exec (Server × List Write)
  | [], s => .ok (s, [])
  | conn :: conns, s => do
      let c ← s.deref conn
      let (c, ub) ← c.send buf len
      let s := { s with heap := Function.update s.heap conn (some c) }
      let (s, writes) ← sendAll buf len conns s
      return (s, ⟨conn, c.handle_, ub.bytes c.sendBuf⟩ :: writes)

/-- `onStringMessageBack`. -/
def onStringMessageBack (msg : List UInt8) (s : Server) : Exec Server := do
  let (len, buf) ← Codec.encode s.buf (cStr msg)
  let s := { s with buf }
  let (s, writes) ← sendAll buf.peek (sizeOfInt len) s.conns s
  return { s with broadcasts := s.broadcasts ++ [⟨msg, s.conns, writes⟩] }

/-- `codec->on_uv_read(nread, buf)`: an `ssize_t` becomes a `size_t`. -/
def codecRead (s : Server) (nread : Int64) (base : List UInt8) : Exec Server := do
  let (codec, s) ← s.codec.onUvRead onStringMessageBack nread.toUInt64 base s
  return { s with codec }

/-- `on_read`. -/
def onRead (s : Server) (h : Handle) (nread : Int64) (base : List UInt8) : Exec Server := do
  if nread < 0 then
    if nread = uvEof then
      let conn ← s.streamData h
      let _ ← s.deref conn
      if conn ∈ s.conns then
        deleteConn { s with conns := s.conns.erase conn } conn
      else
        return s
    else
      -- the error is logged, and the read goes on with the negative `nread`
      let _ ← s.streamData h
      s.codecRead nread base
  else if nread = 0 then
    return s
  else
    let _ ← s.streamData h
    s.codecRead nread base

/-- `on_connection`.  `accepted` is what `uv_accept` returns, and `sendBuf` what the
memory of the new `Connection` held. -/
def onConnection (s : Server) (status accepted : Int32) (sendBuf : CharArray 8192) :
    Exec Server := do
  if status < 0 then
    return s
  else
    let client : Handle := ⟨s.allocated⟩
    let conn : ConnPtr := ⟨s.allocated⟩
    let s : Server :=
      { s with
        heap := Function.update s.heap conn (some ⟨s.connections, client, sendBuf⟩)
        connections := s.connections + 1
        conns := s.conns ++ [conn]
        allocated := s.allocated + 1 }
    checkUv accepted
    -- `uv_tcp_init`, `data = conn` and `uv_read_start`: nothing happens in between
    return { s with streams := Function.update s.streams client (some ⟨some conn, true, 0⟩) }

/-! ## Runs -/

/-- The callbacks libuv makes. -/
inductive Event
  | connection (status accepted : Int32) (sendBuf : CharArray 8192)
  | read (h : Handle) (nread : Int64) (base : List UInt8)
  deriving DecidableEq

/-- One callback. -/
def step (s : Server) : Event → Exec Server
  | .connection status accepted sendBuf => s.onConnection status accepted sendBuf
  | .read h nread base => s.onRead h nread base

/-- Which callbacks libuv may make: a read is for a handle that is being read, and a
read of `nread` bytes has put them at the start of the buffer. -/
def Enabled (s : Server) : Event → Prop
  | .connection _ _ _ => True
  | .read h nread base =>
      (∃ st, s.streams h = some st ∧ st.reading = true) ∧ nread.toInt ≤ base.length

instance decidableEnabled (s : Server) (event : Event) : Decidable (s.Enabled event) :=
  match event with
  | .connection _ _ _ => inferInstanceAs (Decidable True)
  | .read h nread base =>
      decidable_of_iff
        ((s.streams h).any Stream.reading = true ∧ nread.toInt ≤ base.length)
        (and_congr_left fun _ => Option.any_eq_true _ _)

/-- The state `main` starts the loop in: a codec with its callback, an empty outgoing
buffer, no connection. -/
def start : Server where
  conns := []
  codec := Codec.new
  buf := Buffer.ofDefault
  connections := 0
  heap := fun _ => none
  streams := fun _ => none
  allocated := 0
  broadcasts := []

/-- The states the server reaches, with the events that led there. -/
def Reaches (history : List Event) (s : Server) : Prop :=
  AbortingRun.Reaches step Enabled start history s

/-- The state a history leads to, computed. -/
def runEvents (history : List Event) : Option Server :=
  AbortingRun.runEnabled step Enabled start history

theorem reaches_of_runEvents {history : List Event} {s : Server}
    (h : runEvents history = some s) : Reaches history s :=
  AbortingRun.Reaches.start.of_runEnabled h

/-- The messages `onStringMessageBack` was given. -/
def delivered (s : Server) : List (List UInt8) := s.broadcasts.map Broadcast.msg

end Server

end LearnUv
