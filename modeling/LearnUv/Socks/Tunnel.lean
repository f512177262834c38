import LearnUv.Common.Memory
import LearnUv.Library.DottedQuad

/-!
# `socks_server`

The SOCKS4 proxy of `socks`: a tunnel for each client, with one buffer for each
direction.  A read from the client whose buffer begins with the bytes 4, 1 is taken for a
CONNECT request; while the connect is under way what the client sends is kept in
`server_buf`; after it, what comes from either side is written to the other one.  The
callbacks of `socks_server.cpp` are below, in their order; each is a function of the
tunnel and of what libuv knows of it.

libuv is the environment.  An event is a callback it makes (`Event`), after it has put
what it read into the buffer the alloc callback names, and `Enabled` says which callbacks
it may make.  Its functions succeed, and do what they do with the bytes there are at the
call.

## The block of a tunnel

`malloc` returns one block for a `Tunnel`, and `server_buf` is the last thing in it.  The
alloc callback of the server takes the handle it is given for that of the client, so what
it calls `server_buf` begins `gap` bytes behind the real one and ends `gap` bytes behind
the block, where `gap` is the distance between the two handles.  Two things follow, and
the model keeps both.

* libuv stores what it reads there.  A read that leaves fewer than `gap` bytes of the
  buffer free is stored beyond the block, and the callback ends in `outOfBounds`.
* `on_server_read` has all of the buffer written.  Its last `gap` bytes are not the
  tunnel's; each event says what they are at that time.

## Main Definitions

* `Tunnel` — `struct Tunnel`
* `Session` — a tunnel, libuv's view of it, and a record of what was done
* `onClientRead`, `onServerConnect`, `onServerRead` — the callbacks
* `Reaches` — the sessions a new client reaches, with the events that led there
* `clientBuffers` — what `client_buf` holds after each of some reads
-/

namespace LearnUv.Socks

open DottedQuad (Quad)

/-- `MAXSIZE`. -/
def maxSize : ℕ := 4096

/-- `Status`. -/
inductive Status
  | tunnelStart
  | success
  | closeClient
  | badRequest
  | serverWriteEnd
  | clientWriteEnd
  | connectingToServer
  | connectedToServer
  deriving DecidableEq, Repr

/-- `Addr`: the text in `ip`, up to its NUL, and the port. -/
structure Addr where
  ip : List Char
  port : ℕ
  deriving DecidableEq, Repr

/-- A `struct sockaddr_in`. -/
structure SockAddrIn where
  addr : Quad
  port : UInt16
  deriving DecidableEq, Repr

/-- `uv_ip4_addr`: nothing is known of the address if the text is not a dotted quad. -/
def uvIp4Addr (ip : List Char) (port : ℕ) : Option SockAddrIn :=
  (DottedQuad.parse ip).map fun quad => ⟨quad, UInt16.ofNat port⟩

/-- `struct Tunnel`, in which `gap` is the distance between the two handles, and
`server_buf` comes last. -/
structure Tunnel (gap : ℕ) where
  status : Status
  addr : Addr
  serverBufOffset : ℕ
  clientBuf : CharArray maxSize
  serverBuf : CharArray maxSize
  deriving DecidableEq

/-- The two streams of a tunnel. -/
inductive Side
  | client
  | server
  deriving DecidableEq, Repr

/-- What the callbacks do. -/
inductive Action
  /-- `uv_tcp_init`. -/
  | tcpInit (side : Side)
  /-- `uv_read_start`. -/
  | readStart (side : Side)
  /-- `uv_write(&client_write_req, client, sendBuf)`: the answer to the request for `dest`. -/
  | reply (dest : Option SockAddrIn) (bytes : List UInt8)
  /-- The line with the user name is printed. -/
  | username
  /-- `uv_tcp_connect`. -/
  | connect (dest : Option SockAddrIn)
  /-- `on_server_connect` is called for the connect to `dest`. -/
  | connectDone (dest : Option SockAddrIn) (status : ℤ)
  /-- `uv_write(&client_write_req, server, tmpBuf)`. -/
  | forward (bytes : List UInt8)
  /-- `memcpy(server_buf + server_buf_offset, base, nread)`. -/
  | stash (bytes : List UInt8)
  /-- The line with the unexpected status is printed. -/
  | unexpectedStatus
  /-- `uv_write(write_req, client, buf)`. -/
  | relay (bytes : List UInt8)
  /-- `uv_close`. -/
  | close (side : Side)
  /-- `free(tunnel)`. -/
  | free
  /-- A callback is called for a tunnel that was freed. -/
  | useAfterFree
  deriving DecidableEq, Repr

/-- Where the data of a write lie. -/
inductive Source
  /-- In the frame of `on_client_read`, which is gone when it returns. -/
  | sendBuf
  /-- At the start of `client_buf`. -/
  | clientBuf
  deriving DecidableEq, Repr

/-- A `uv_write` with `client_write_req`, and the bytes that were to be written. -/
structure ClientWrite where
  source : Source
  bytes : List UInt8
  deriving DecidableEq, Repr

/-- A tunnel, and what libuv knows of it. -/
structure Session (gap : ℕ) where
  tunnel : Tunnel gap
  freed : Bool
  clientReading : Bool
  serverReading : Bool
  /-- The destinations of the connects whose callbacks have not been called. -/
  connecting : List (Option SockAddrIn)
  /-- The writes with `client_write_req` whose callbacks have not been called. -/
  clientWrites : List ClientWrite
  /-- What was done so far. -/
  log : List Action
  deriving DecidableEq

/-! ## Requests -/

/-- `buf[i]`. -/
def byteAt (buf : List UInt8) (i : ℕ) : UInt8 := buf.getD i 0

/-- `readPort`. -/
def readPort (buf : List UInt8) (offset : ℕ) : ℕ :=
  ((byteAt buf (0 + offset)).toNat <<< 8) + (byteAt buf (1 + offset)).toNat

/-- `parseAddr`. -/
def parseAddr (buf : List UInt8) (offset : ℕ) : Addr where
  port := readPort buf offset
  ip := Quad.render ⟨byteAt buf (2 + offset), byteAt buf (3 + offset),
    byteAt buf (4 + offset), byteAt buf (5 + offset)⟩

/-- `buf->base[0] == 0x04 && buf->base[1] == 0x01`. -/
def OpensRequest (base : List UInt8) : Prop := base[0]? = some 4 ∧ base[1]? = some 1

instance (base : List UInt8) : Decidable (OpensRequest base) :=
  inferInstanceAs (Decidable (_ ∧ _))

/-- What `uv_tcp_connect` is given for a request. -/
def requestDest (base : List UInt8) : Option SockAddrIn :=
  uvIp4Addr (parseAddr base 2).ip (parseAddr base 2).port

/-- The bytes of `sendBuf` in `on_client_read`. -/
def grantedReply : List UInt8 := [0x00, 0x5a, 0x47, 0x47, 0x47, 0x47, 0x47, 0x47]

/-- A `uv_buf_t` with its base in an array of the tunnel. -/
structure BufAt where
  offset : ℕ
  len : ℕ

/-- `alloc_buffer_client`. -/
def allocBufferClient : BufAt := ⟨0, maxSize⟩

/-- `alloc_buffer_server`: `handle` is that of the server, and `CONTAINER_OF` takes it for
that of the client, so the base is `gap` bytes behind the start of `server_buf`.  The
length is that of `server_buf`, and the end `gap` bytes behind the tunnel. -/
def allocBufferServer (gap : ℕ) : BufAt := ⟨gap, maxSize⟩

/-- The bytes the buffer covers. -/
def BufAt.read (buf : BufAt) (memory : List UInt8) : List UInt8 :=
  (memory.drop buf.offset).take buf.len

namespace Session

variable {gap : ℕ}

/-- Something was done. -/
def record (s : Session gap) (action : Action) : Session gap :=
  { s with log := s.log ++ [action] }

/-! ## The callbacks -/

/-- `on_server_read`, with the bytes the buffer covers.  All of them are written. -/
def onServerRead (s : Session gap) (nread : ℤ) (buf : List UInt8) : Session gap :=
  if nread < 0 then s else s.record (.relay buf)

/-- `on_server_connect`. -/
def onServerConnect (s : Session gap) (status : ℤ) : Session gap :=
  if status < 0 then { s.record .free with freed := true }
  else
    { s with
      tunnel := { s.tunnel with status := .connectedToServer }
      serverReading := true
      log := s.log ++ [.readStart .server] }

/-- The branch of `on_client_read` for a CONNECT request. -/
def request (s : Session gap) (base : List UInt8) : Session gap :=
  let dest := requestDest base
  let username := cString (base.drop 8)
  { s with
    tunnel := { s.tunnel with addr := parseAddr base 2, status := .connectingToServer }
    -- `uv_tcp_init` makes a new stream of the handle
    serverReading := false
    connecting := s.connecting ++ [dest]
    clientWrites := s.clientWrites ++ [⟨.sendBuf, grantedReply⟩]
    log := s.log ++ .reply dest grantedReply ::
      (if 0 < username.length then [.username] else []) ++
        [.tcpInit .server, .connect dest] }

/-- The branch for a tunnel that is connected. -/
def forward (s : Session gap) (bytes : List UInt8) : Session gap :=
  { s with
    clientWrites := s.clientWrites ++ [⟨.clientBuf, bytes⟩]
    log := s.log ++ [.forward bytes] }

/-- The branch for a tunnel that is being connected: the bytes and a NUL are stored behind
what `server_buf` already holds. -/
def stash (s : Session gap) (bytes : List UInt8) : Exec (Session gap) := do
  let serverBuf ← s.tunnel.serverBuf.store s.tunnel.serverBufOffset bytes
  let serverBufOffset := s.tunnel.serverBufOffset + bytes.length
  let serverBuf ← serverBuf.store serverBufOffset [0]
  return { s with
    tunnel := { s.tunnel with serverBufOffset, serverBuf }
    log := s.log ++ [.stash bytes] }

/-- `on_client_read`. -/
def onClientRead (s : Session gap) (nread : ℤ) : Exec (Session gap) :=
  let base := s.tunnel.clientBuf.bytes
  if nread < 0 then
    -- the error is printed; `uv_close` is commented out
    .ok s
  else if OpensRequest base then
    .ok (s.request base)
  else if s.tunnel.status = .connectedToServer then
    .ok (s.forward (base.take nread.toNat))
  else if s.tunnel.status = .connectingToServer then
    s.stash (base.take nread.toNat)
  else
    .ok (s.record .unexpectedStatus)

/-- The session of a client that was accepted, in the memory `malloc` returned. -/
def accept (memory : Tunnel gap) : Session gap where
  tunnel := { memory with status := .tunnelStart }
  freed := false
  clientReading := true
  serverReading := false
  connecting := []
  clientWrites := []
  log := [.tcpInit .client, .readStart .client]

/-- `on_new_client_connection`.  `accepted` is what `uv_accept` returns. -/
def onNewClientConnection (status accepted : ℤ) (memory : Tunnel gap) :
    Option (Session gap) :=
  if status < 0 then none
  else if accepted = 0 then some (accept memory)
  else some
    { accept memory with
      tunnel := memory
      freed := true
      clientReading := false
      log := [.tcpInit .client, .free] }

/-! ## Runs -/

/-- A negative `nread`: `UV_EOF`, or another error. -/
abbrev ReadError : Type := { nread : ℤ // nread < 0 }

/-- The callbacks libuv makes for a tunnel whose handles are `gap` bytes apart. -/
inductive Event (gap : ℕ)
  /-- A read of the client stream, with what was read. -/
  | clientData (data : List UInt8)
  /-- The end of the client stream, or an error. -/
  | clientEnd (nread : ReadError)
  /-- The connect to `dest` is done. -/
  | connectDone (dest : Option SockAddrIn) (status : ℤ)
  /-- A read of the server stream, with what was read, and what lies behind the tunnel. -/
  | serverData (data : List UInt8) (behind : CharArray gap)
  /-- The end of the server stream, or an error. -/
  | serverEnd (nread : ReadError)
  /-- `on_client_write_end` for one of the writes. -/
  | clientWriteEnd (i : ℕ)
  deriving DecidableEq

/-- One callback for a tunnel that exists. -/
def callback (s : Session gap) : Event gap → Exec (Session gap)
  | .clientData data => do
      let clientBuf ← s.tunnel.clientBuf.store allocBufferClient.offset data
      onClientRead { s with tunnel := { s.tunnel with clientBuf } } data.length
  | .clientEnd nread => onClientRead { s with clientReading := false } nread
  | .connectDone dest status =>
      .ok (onServerConnect
        { s with
          connecting := s.connecting.erase dest
          log := s.log ++ [.connectDone dest status] } status)
  | .serverData data behind => do
      let buf := allocBufferServer gap
      -- what does not fit into `server_buf` would be stored beyond the tunnel
      let serverBuf ← s.tunnel.serverBuf.store buf.offset data
      return onServerRead { s with tunnel := { s.tunnel with serverBuf } } data.length
        (buf.read (serverBuf.bytes ++ behind.bytes))
  | .serverEnd nread =>
      -- without a read the buffer is not looked at
      .ok (onServerRead { s with serverReading := false } nread [])
  | .clientWriteEnd i => .ok { s with clientWrites := s.clientWrites.eraseIdx i }

/-- One callback.  What it does for a tunnel that was freed is undefined, and only
recorded. -/
def step (s : Session gap) (event : Event gap) : Exec (Session gap) :=
  if s.freed then .ok (s.record .useAfterFree) else s.callback event

/-- Which callbacks libuv may make: a read is for a stream that is being read, and of no
more than the buffer holds; a connect or a write ends once. -/
def Enabled (s : Session gap) : Event gap → Prop
  | .clientData data => s.clientReading = true ∧ data.length ≤ maxSize
  | .clientEnd _ => s.clientReading = true
  | .connectDone dest _ => dest ∈ s.connecting
  | .serverData data _ => s.serverReading = true ∧ data.length ≤ maxSize
  | .serverEnd _ => s.serverReading = true
  | .clientWriteEnd i => i < s.clientWrites.length

instance decidableEnabled (s : Session gap) (event : Event gap) : Decidable (s.Enabled event) :=
  match event with
  | .clientData _ => inferInstanceAs (Decidable (_ ∧ _))
  | .clientEnd _ => inferInstanceAs (Decidable (_ = _))
  | .connectDone _ _ => inferInstanceAs (Decidable (_ ∈ _))
  | .serverData _ _ => inferInstanceAs (Decidable (_ ∧ _))
  | .serverEnd _ => inferInstanceAs (Decidable (_ = _))
  | .clientWriteEnd _ => inferInstanceAs (Decidable (_ < _))

/-- The run of a list of callbacks. -/
def run (s : Session gap) (events : List (Event gap)) : Exec (Session gap) :=
  AbortingRun.run step s events

/-- The sessions a new client reaches, with the events that led there. -/
def Reaches (memory : Tunnel gap) (history : List (Event gap)) (s : Session gap) : Prop :=
  AbortingRun.Reaches step Enabled (accept memory) history s

/-- The session a history leads to, computed. -/
def runEvents (memory : Tunnel gap) (history : List (Event gap)) : Option (Session gap) :=
  AbortingRun.runEnabled step Enabled (accept memory) history

/-- What is computed of a session is true of one that is reached. -/
theorem exists_reaches_of_map {β : Type} {memory : Tunnel gap} {history : List (Event gap)}
    {f : Session gap → β} {b : β} (h : (runEvents memory history).map f = some b) :
    ∃ s, Reaches memory history s ∧ f s = b := by
  obtain ⟨s, hs, hf⟩ := Option.map_eq_some_iff.mp h
  exact ⟨s, AbortingRun.Reaches.start.of_runEnabled hs, hf⟩

/-- libuv makes each callback of the history when it may. -/
def Delivered (s : Session gap) (history : List (Event gap)) : Prop :=
  AbortingRun.EachStep step Enabled s history

theorem delivered_of_runEvents {memory : Tunnel gap} {history : List (Event gap)}
    (h : (runEvents memory history).isSome = true) : (accept memory).Delivered history :=
  AbortingRun.eachStep_of_runEnabled h

end Session

/-! ## The bytes of a history -/

/-- What the client sent, read by read. -/
def clientReads {gap : ℕ} (events : List (Session.Event gap)) : List (List UInt8) :=
  events.filterMap fun
    | .clientData data => some data
    | _ => none

/-- What `client_buf` holds after each of some reads. -/
def clientBuffers : List UInt8 → List (List UInt8) → List (List UInt8)
  | _, [] => []
  | base, data :: reads => overwrite base 0 data :: clientBuffers (overwrite base 0 data) reads

/-- What `client_buf` holds after all of some reads. -/
def bufferAfter (base : List UInt8) (reads : List (List UInt8)) : List UInt8 :=
  reads.foldl (fun base data => overwrite base 0 data) base

/-- The bytes that were written to the server. -/
def forwarded (log : List Action) : List UInt8 :=
  log.flatMap fun
    | .forward bytes => bytes
    | _ => []

/-- The bytes `on_server_read` wrote to the client. -/
def relayed (log : List Action) : List UInt8 :=
  log.flatMap fun
    | .relay bytes => bytes
    | _ => []

/-- The bytes that were treated as payload of the tunnel: kept, or written to the server. -/
def payload (log : List Action) : List UInt8 :=
  log.flatMap fun
    | .forward bytes => bytes
    | .stash bytes => bytes
    | _ => []

/-- The destinations a connect was started for. -/
def connects (log : List Action) : List (Option SockAddrIn) :=
  log.filterMap fun
    | .connect dest => some dest
    | _ => none

/-- The replies that were written. -/
def replies (log : List Action) : List (List UInt8) :=
  log.filterMap fun
    | .reply _ bytes => some bytes
    | _ => none

end LearnUv.Socks
