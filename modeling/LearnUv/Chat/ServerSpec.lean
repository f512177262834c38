import LearnUv.Chat.Server
import LearnUv.Chat.CodecSpec
import Mathlib.Data.List.Nodup

/-!
# What the callbacks of the chat server do

The connections, the handles and the two buffers of a reachable server fit together
(`Wf`): every connection in `conns` exists and its handle is being read, and every
handle that is being read belongs to one of them.  Each callback has one specification,
and from these follows what holds of every reachable state.

A read is the only callback with many outcomes.  `append_cases` lists what appending does
to the global `codec`, for every number of bytes libuv reports: the bytes were appended, or
bytes at the end were taken back, or the call did not return.  `codecRead_spec` goes on from
there through `onMessage` and the broadcasts, and `onRead_spec` adds the branch for `UV_EOF`,
the only one in which a connection is removed.  The results about whole runs go through
these, by `Reaches.induction`, and do not unfold a callback.

## Main Definitions

* `Wf` — the invariant of the server
* `SameTable` — what a broadcast leaves alone

## Main Results

* `onStringMessageBack_spec`, `onConnection_spec`, `onRead_eof_spec`, `codecRead_spec` —
  one for each callback
* `Reaches.induction` — what every callback preserves holds in every reachable state
-/

namespace LearnUv

open Codec (frame frames length_frame maxLength decoder deliverAll)

/-! ## Connections -/

/-- What `send` does not change. -/
def Connection.identity (c : Connection) : Int32 × Handle := (c.id_, c.handle_)

/-- Bytes that fit into `sendBuf` are handed to `uv_write`. -/
theorem Connection.send_of_fits (conn : Connection) {buf : List UInt8} {len : UInt64}
    (hbuf : len.toNat ≤ buf.length) (hfits : len.toNat ≤ 8192) :
    ∃ sendBuf, conn.send buf len = .ok ({ conn with sendBuf }, ⟨len⟩) ∧
      UvBuf.bytes ⟨len⟩ sendBuf = buf.take len.toNat := by
  obtain ⟨sendBuf, hstage, -, hbytes⟩ :=
    stage_of_fits conn.sendBuf (by decide) hbuf hfits
  refine ⟨sendBuf, ?_, hbytes⟩
  rw [Connection.send, hstage]
  rfl

namespace Server

/-! ## The invariant -/

/-- The C strings that were encoded into the outgoing buffer. -/
def encoded (s : Server) : List (List UInt8) := s.broadcasts.map fun b => cString b.msg

/-- The invariant of the server. -/
structure Wf (s : Server) : Prop where
  /-- No connection is listed twice. -/
  nodup : s.conns.Nodup
  /-- A listed connection exists, and its handle is open and points back to it. -/
  listed : ∀ conn ∈ s.conns, ∃ c, s.heap conn = some c ∧
    s.streams c.handle_ = some ⟨some conn, true, 0⟩
  /-- A handle that is being read is the handle of a listed connection. -/
  active : ∀ h st, s.streams h = some st → st.reading = true →
    ∃ conn ∈ s.conns, st = ⟨some conn, true, 0⟩ ∧ ∃ c, s.heap conn = some c ∧ c.handle_ = h
  /-- What has not been allocated does not exist. -/
  fresh : ∀ addr, s.allocated ≤ addr → s.heap ⟨addr⟩ = none ∧ s.streams ⟨addr⟩ = none
  /-- The buffer of the codec satisfies its class invariant. -/
  codec : s.codec.buffer.Wf
  /-- The outgoing buffer holds every frame that was ever encoded: nothing retrieves. -/
  outgoing : s.buf.Holds (frames s.encoded)
  /-- So its reader index has not moved. -/
  reader_zero : s.buf.readerIndex_ = 0

theorem wf_start : start.Wf where
  nodup := List.nodup_nil
  listed := by
    intro conn hconn
    cases hconn
  active := by
    intro h st hst
    cases hst
  fresh := fun _ _ => ⟨rfl, rfl⟩
  codec := (Buffer.holds_new 8192 (by decide)).wf
  outgoing := Buffer.holds_ofDefault
  reader_zero := rfl

namespace Wf

/-- The handle of a listed connection is open and points back to it. -/
theorem streams_eq {s : Server} (h : s.Wf) {conn : ConnPtr} {c : Connection}
    (hconn : conn ∈ s.conns) (hc : s.heap conn = some c) :
    s.streams c.handle_ = some ⟨some conn, true, 0⟩ := by
  obtain ⟨c', hc', hst⟩ := h.listed conn hconn
  rw [hc] at hc'
  cases hc'
  exact hst

/-- The addresses of what exists have been given out. -/
theorem addr_lt {s : Server} (h : s.Wf) {conn : ConnPtr} {c : Connection}
    (hc : s.heap conn = some c) : conn.addr < s.allocated := by
  by_contra hle
  have hnone := (h.fresh conn.addr (Nat.not_lt.mp hle)).1
  rw [hc] at hnone
  cases hnone

theorem conn_ne_new {s : Server} (h : s.Wf) {conn : ConnPtr} {c : Connection}
    (hc : s.heap conn = some c) : conn ≠ ⟨s.allocated⟩ := by
  rintro rfl
  exact Nat.lt_irrefl _ (h.addr_lt hc)

theorem handle_ne_new {s : Server} (h : s.Wf) {hd : Handle} {st : Stream}
    (hst : s.streams hd = some st) : hd ≠ ⟨s.allocated⟩ := by
  rintro rfl
  have hnone := (h.fresh s.allocated le_rfl).2
  rw [hst] at hnone
  cases hnone

end Wf

/-- `s'` has the connections, the handles and the codec of `s`; the send buffers, the
outgoing buffer and the broadcasts may differ. -/
structure SameTable (s s' : Server) : Prop where
  conns : s'.conns = s.conns
  codec : s'.codec = s.codec
  connections : s'.connections = s.connections
  streams : s'.streams = s.streams
  allocated : s'.allocated = s.allocated
  identity : ∀ conn, (s'.heap conn).map Connection.identity =
    (s.heap conn).map Connection.identity

namespace SameTable

theorem refl (s : Server) : SameTable s s := ⟨rfl, rfl, rfl, rfl, rfl, fun _ => rfl⟩

theorem trans {s t u : Server} (hst : SameTable s t) (htu : SameTable t u) :
    SameTable s u where
  conns := htu.conns.trans hst.conns
  codec := htu.codec.trans hst.codec
  connections := htu.connections.trans hst.connections
  streams := htu.streams.trans hst.streams
  allocated := htu.allocated.trans hst.allocated
  identity := fun conn => (htu.identity conn).trans (hst.identity conn)

theorem symm {s t : Server} (h : SameTable s t) : SameTable t s where
  conns := h.conns.symm
  codec := h.codec.symm
  connections := h.connections.symm
  streams := h.streams.symm
  allocated := h.allocated.symm
  identity := fun conn => (h.identity conn).symm

/-- A connection that exists still exists, with its handle. -/
theorem heap_eq_some {s s' : Server} (h : SameTable s s') {conn : ConnPtr} {c : Connection}
    (hc : s.heap conn = some c) :
    ∃ c', s'.heap conn = some c' ∧ c'.handle_ = c.handle_ := by
  have hid := h.identity conn
  rw [hc] at hid
  obtain ⟨c', hc', heq⟩ := Option.map_eq_some_iff.mp hid
  exact ⟨c', hc', congrArg Prod.snd heq⟩

/-- A connection that does not exist still does not. -/
theorem heap_eq_none {s s' : Server} (h : SameTable s s') {conn : ConnPtr}
    (hc : s.heap conn = none) : s'.heap conn = none := by
  have hid := h.identity conn
  rw [hc] at hid
  exact Option.map_eq_none_iff.mp hid

end SameTable

/-- The invariant speaks of the table, of the codec's buffer and of the outgoing buffer. -/
theorem Wf.of_sameTable {s s' : Server} (h : s.Wf) (hsame : SameTable s s')
    (hout : s'.buf.Holds (frames s'.encoded)) (hreader : s'.buf.readerIndex_ = 0) :
    s'.Wf where
  nodup := by
    rw [hsame.conns]
    exact h.nodup
  listed := by
    intro conn hconn
    rw [hsame.conns] at hconn
    obtain ⟨c, hc, hst⟩ := h.listed conn hconn
    obtain ⟨c', hc', hhandle⟩ := hsame.heap_eq_some hc
    refine ⟨c', hc', ?_⟩
    rw [hsame.streams, hhandle]
    exact hst
  active := by
    intro hd st hst hreading
    rw [hsame.streams] at hst
    obtain ⟨conn, hconn, hdata, c, hc, hhandle⟩ := h.active hd st hst hreading
    obtain ⟨c', hc', hhandle'⟩ := hsame.heap_eq_some hc
    rw [hsame.conns]
    exact ⟨conn, hconn, hdata, c', hc', hhandle'.trans hhandle⟩
  fresh := by
    intro addr haddr
    rw [hsame.allocated] at haddr
    obtain ⟨hheap, hstream⟩ := h.fresh addr haddr
    rw [hsame.streams]
    exact ⟨hsame.heap_eq_none hheap, hstream⟩
  codec := by
    rw [hsame.codec]
    exact h.codec
  outgoing := hout
  reader_zero := hreader

/-! ## `onStringMessageBack` -/

theorem deref_eq_ok {s : Server} {conn : ConnPtr} {c : Connection}
    (h : s.heap conn = some c) : s.deref conn = .ok c := by
  rw [deref, h]

theorem stream_eq_ok {s : Server} {h : Handle} {st : Stream}
    (hst : s.streams h = some st) : s.stream h = .ok st := by
  rw [stream, hst]

theorem streamData_eq_ok {s : Server} {h : Handle} {st : Stream} {conn : ConnPtr}
    (hst : s.streams h = some st) (hdata : st.data = some conn) :
    s.streamData h = .ok conn := by
  rw [streamData, stream_eq_ok hst, AbortingRun.ok_bind, hdata]

/-- The loop over the connections writes the same bytes to each of them. -/
theorem sendAll_of_fits {buf : List UInt8} {len : UInt64} (hbuf : len.toNat ≤ buf.length)
    (hfits : len.toNat ≤ 8192) (conns : List ConnPtr) (s : Server)
    (hlive : ∀ conn ∈ conns, ∃ c, s.heap conn = some c) :
    ∃ heap writes, sendAll buf len conns s = .ok ({ s with heap }, writes) ∧
      SameTable s { s with heap } ∧
      writes.map (fun w => (w.conn, w.bytes)) =
        conns.map (fun conn => (conn, buf.take len.toNat)) ∧
      ∀ w ∈ writes, (s.heap w.conn).map Connection.handle_ = some w.handle := by
  induction conns generalizing s with
  | nil => exact ⟨s.heap, [], rfl, .refl s, rfl, fun w hw => by cases hw⟩
  | cons conn conns ih =>
      obtain ⟨c, hc⟩ := hlive conn List.mem_cons_self
      obtain ⟨sendBuf, hsend, hbytes⟩ := c.send_of_fits hbuf hfits
      let s₁ : Server :=
        { s with heap := Function.update s.heap conn (some { c with sendBuf }) }
      have hsame₁ : SameTable s s₁ := by
        refine ⟨rfl, rfl, rfl, rfl, rfl, fun conn' => ?_⟩
        show ((Function.update s.heap conn (some { c with sendBuf })) conn').map _ = _
        by_cases hconn : conn' = conn
        · subst hconn
          rw [Function.update_self, hc]
          rfl
        · rw [Function.update_of_ne hconn]
      have hlive₁ : ∀ conn' ∈ conns, ∃ c', s₁.heap conn' = some c' := by
        intro conn' hmem
        obtain ⟨c', hc'⟩ := hlive conn' (List.mem_cons_of_mem _ hmem)
        obtain ⟨c'', hc'', -⟩ := hsame₁.heap_eq_some hc'
        exact ⟨c'', hc''⟩
      obtain ⟨heap, writes, hrest, hsame, hwrites, hhandles⟩ := ih s₁ hlive₁
      refine ⟨heap, ⟨conn, c.handle_, buf.take len.toNat⟩ :: writes, ?_,
        hsame₁.trans hsame, ?_, ?_⟩
      · rw [sendAll, deref_eq_ok hc, AbortingRun.ok_bind, hsend, AbortingRun.ok_bind]
        show (sendAll buf len conns s₁ >>= fun p => _) = _
        rw [hrest, AbortingRun.ok_bind]
        show Except.ok ({ s with heap := heap },
          ⟨conn, c.handle_, UvBuf.bytes ⟨len⟩ sendBuf⟩ :: writes) = _
        rw [hbytes]
      · rw [List.map_cons, List.map_cons, hwrites]
      · intro w hw
        rcases List.mem_cons.mp hw with rfl | hw
        · show (s.heap conn).map _ = _
          rw [hc]
          rfl
        · rw [← hhandles w hw]
          have hid := congrArg (Option.map Prod.snd) (hsame₁.identity w.conn)
          rw [Option.map_map, Option.map_map] at hid
          exact hid.symm

/-- **A broadcast** appends the frame of the message's C string to the outgoing buffer,
and submits the first bytes of that buffer, as many as that frame has, to every
connection. -/
theorem onStringMessageBack_spec {s : Server} (h : s.Wf) {msg : List UInt8}
    (hmax : msg.length ≤ maxLength) :
    (ptrdiffMax < (frames s.encoded).length + (frame (cString msg)).length ∧
      onStringMessageBack msg s = .error .lengthError) ∨
    ∃ s' writes, onStringMessageBack msg s = .ok s' ∧ SameTable s s' ∧ s'.Wf ∧
      s'.broadcasts = s.broadcasts ++ [⟨msg, s.conns, writes⟩] ∧
      writes.map (fun w => (w.conn, w.bytes)) = s.conns.map (fun conn =>
        (conn, (frames (s.encoded ++ [cString msg])).take (frame (cString msg)).length)) ∧
      ∀ w ∈ writes, (s.heap w.conn).map Connection.handle_ = some w.handle := by
  have hle := length_cString_le msg
  unfold maxLength at hmax
  rcases Codec.encode_peek h.outgoing h.reader_zero (zero_mem_cStr msg)
      (by rw [cString_cStr]; omega) with
    ⟨hlong, herr⟩ | ⟨n, buf, hencode, hlen, hholds, hreader, hpeek, htake⟩
  · refine Or.inl ⟨by rwa [cString_cStr] at hlong, ?_⟩
    rw [onStringMessageBack, herr, AbortingRun.error_bind]
  · have hall : frames s.encoded ++ frame (cString (cStr msg)) =
        frames (s.encoded ++ [cString msg]) := by simp [cString_cStr]
    rw [hall] at hholds htake
    rw [cString_cStr] at hlen htake
    have hframe : (frame (cString msg)).length = 4 + (cString msg).length := length_frame _
    have hlive : ∀ conn ∈ s.conns, ∃ c, s.heap conn = some c := by
      intro conn hconn
      obtain ⟨c, hc, -⟩ := h.listed conn hconn
      exact ⟨c, hc⟩
    obtain ⟨heap, writes, hsends, hsame, hwrites, hhandles⟩ :=
      sendAll_of_fits hpeek (by omega) s.conns { s with buf } hlive
    have hsame' : SameTable s
        { s with buf, heap, broadcasts := s.broadcasts ++ [⟨msg, s.conns, writes⟩] } :=
      ⟨rfl, rfl, rfl, rfl, rfl, hsame.identity⟩
    refine Or.inr ⟨_, writes, ?_, hsame', h.of_sameTable hsame' ?_ hreader, rfl, ?_, hhandles⟩
    · rw [onStringMessageBack, hencode, AbortingRun.ok_bind]
      show (sendAll buf.peek (sizeOfInt n) s.conns { s with buf } >>= fun p => _) = _
      rw [hsends]
      rfl
    · show buf.Holds (frames (encoded _))
      rw [encoded, List.map_append]
      exact hholds
    · rw [hwrites, htake]

/-- What a broadcast that returns has done. -/
theorem onStringMessageBack_eq_ok {s t : Server} (h : s.Wf) {msg : List UInt8}
    (hmax : msg.length ≤ maxLength) (hmsg : onStringMessageBack msg s = .ok t) :
    SameTable s t ∧ t.Wf ∧ ∃ writes,
      t.broadcasts = s.broadcasts ++ [⟨msg, s.conns, writes⟩] ∧
      writes.map (fun w => (w.conn, w.bytes)) = s.conns.map (fun conn =>
        (conn, (frames (s.encoded ++ [cString msg])).take (frame (cString msg)).length)) ∧
      ∀ w ∈ writes, (s.heap w.conn).map Connection.handle_ = some w.handle := by
  rcases onStringMessageBack_spec h hmax with
    ⟨-, herr⟩ | ⟨t', writes, hok, hsame, hwf, hlog, hwrites, hhandles⟩
  · rw [herr] at hmsg
    cases hmsg
  · rw [hok] at hmsg
    cases hmsg
    exact ⟨hsame, hwf, writes, hlog, hwrites, hhandles⟩

/-- **Induction over the broadcasts of one read**, which leave the table alone. -/
theorem deliverAll_induction {P : List (List UInt8) → Server → Prop} {s t : Server}
    (hwf : s.Wf) (hnil : P [] s)
    (hmessage : ∀ given t msg u, t.Wf → SameTable s t → msg.length ≤ maxLength →
      P given t → onStringMessageBack msg t = .ok u → P (given ++ [msg]) u)
    {msgs : List (List UInt8)} (hmax : ∀ msg ∈ msgs, msg.length ≤ maxLength)
    (hrun : deliverAll onStringMessageBack s msgs = .ok t) :
    t.Wf ∧ SameTable s t ∧ P msgs t := by
  refine AbortingRun.run_induction (fun s msg => onStringMessageBack msg s)
    (P := fun given t => (∀ msg ∈ given, msg.length ≤ maxLength) →
      t.Wf ∧ SameTable s t ∧ P given t) ?_ ?_ hrun hmax
  · intro _
    exact ⟨hwf, .refl s, hnil⟩
  · intro given t msg u _ ih hmsg hgiven
    obtain ⟨hwft, hsame, hP⟩ := ih fun m hm => hgiven m (List.mem_append_left _ hm)
    have hshort := hgiven msg (by simp)
    obtain ⟨hsame', hwfu, -⟩ := onStringMessageBack_eq_ok hwft hshort hmsg
    exact ⟨hwfu, hsame.trans hsame', hmessage given t msg u hwft hsame hshort hP hmsg⟩

/-- The message that is broadcast is logged. -/
theorem delivered_of_onStringMessageBack {s t : Server} (h : s.Wf) {msg : List UInt8}
    (hmax : msg.length ≤ maxLength) (hmsg : onStringMessageBack msg s = .ok t) :
    t.delivered = s.delivered ++ [msg] := by
  obtain ⟨-, -, writes, hlog, -, -⟩ := onStringMessageBack_eq_ok h hmax hmsg
  rw [delivered, hlog, List.map_append]
  rfl

/-- The broadcasts of one read: the table stays, and the messages are delivered. -/
theorem deliverAll_spec {s t : Server} (h : s.Wf) {msgs : List (List UInt8)}
    (hmax : ∀ msg ∈ msgs, msg.length ≤ maxLength)
    (hrun : deliverAll onStringMessageBack s msgs = .ok t) :
    t.Wf ∧ SameTable s t ∧ t.delivered = s.delivered ++ msgs := by
  refine deliverAll_induction (P := fun given t => t.delivered = s.delivered ++ given) h
    (List.append_nil _).symm ?_ hmax hrun
  intro given t msg u hwft _ hshort hgiven hmsg
  rw [delivered_of_onStringMessageBack hwft hshort hmsg, hgiven, List.append_assoc]

/-! ## `on_connection` -/

/-- `s` with one more connection. -/
def accept (s : Server) (sendBuf : CharArray 8192) : Server :=
  { s with
    heap := Function.update s.heap ⟨s.allocated⟩
      (some ⟨s.connections, ⟨s.allocated⟩, sendBuf⟩)
    streams := Function.update s.streams ⟨s.allocated⟩ (some ⟨some ⟨s.allocated⟩, true, 0⟩)
    connections := s.connections + 1
    conns := s.conns ++ [⟨s.allocated⟩]
    allocated := s.allocated + 1 }

/-- A connection is accepted, or the event is ignored. -/
theorem onConnection_spec {s t : Server} {status accepted : Int32}
    {sendBuf : CharArray 8192} (h : s.onConnection status accepted sendBuf = .ok t) :
    (status < 0 ∧ t = s) ∨ (¬status < 0 ∧ ¬accepted < 0 ∧ t = s.accept sendBuf) := by
  unfold onConnection at h
  split at h
  · next hstatus =>
      cases h
      exact Or.inl ⟨hstatus, rfl⟩
  · next hstatus =>
      dsimp only at h
      rw [checkUv] at h
      split at h
      · cases h
      · next haccepted =>
          cases h
          exact Or.inr ⟨hstatus, haccepted, rfl⟩

theorem Wf.accept {s : Server} (h : s.Wf) (sendBuf : CharArray 8192) :
    (s.accept sendBuf).Wf where
  nodup := by
    refine List.nodup_append.mpr ⟨h.nodup, List.nodup_singleton _, ?_⟩
    intro conn hconn conn' hconn' heq
    obtain ⟨c, hc, -⟩ := h.listed conn hconn
    exact h.conn_ne_new hc (heq.trans (List.mem_singleton.mp hconn'))
  listed := by
    intro conn hconn
    rcases List.mem_append.mp hconn with hold | hnew
    · obtain ⟨c, hc, hst⟩ := h.listed conn hold
      refine ⟨c, ?_, ?_⟩
      · show Function.update _ _ _ conn = _
        rw [Function.update_of_ne (h.conn_ne_new hc), hc]
      · show Function.update _ _ _ c.handle_ = _
        rw [Function.update_of_ne (h.handle_ne_new hst), hst]
    · rw [List.mem_singleton.mp hnew]
      exact ⟨_, Function.update_self _ _ _, Function.update_self _ _ _⟩
  active := by
    intro hd st hst hreading
    change Function.update _ _ _ hd = _ at hst
    by_cases hnew : hd = ⟨s.allocated⟩
    · subst hnew
      rw [Function.update_self] at hst
      cases hst
      exact ⟨_, List.mem_append_right _ (List.mem_singleton_self _), rfl, _,
        Function.update_self _ _ _, rfl⟩
    · rw [Function.update_of_ne hnew] at hst
      obtain ⟨conn, hconn, hdata, c, hc, hhandle⟩ := h.active hd st hst hreading
      refine ⟨conn, List.mem_append_left _ hconn, hdata, c, ?_, hhandle⟩
      show Function.update _ _ _ conn = _
      rw [Function.update_of_ne (h.conn_ne_new hc), hc]
  fresh := by
    intro addr haddr
    change s.allocated + 1 ≤ addr at haddr
    obtain ⟨hheap, hstream⟩ := h.fresh addr (by omega)
    have hne : addr ≠ s.allocated := by omega
    constructor
    · show Function.update _ _ _ _ = _
      rw [Function.update_of_ne (fun heq => hne (congrArg ConnPtr.addr heq)), hheap]
    · show Function.update _ _ _ _ = _
      rw [Function.update_of_ne (fun heq => hne (congrArg Handle.addr heq)), hstream]
  codec := h.codec
  outgoing := h.outgoing
  reader_zero := h.reader_zero

/-! ## `on_read` at the end of a stream -/

/-- `s` after the connection `conn` of the handle `h` was deleted. -/
def closeConn (s : Server) (conn : ConnPtr) (h : Handle) : Server :=
  { s with
    conns := s.conns.erase conn
    heap := Function.update s.heap conn none
    streams := Function.update s.streams h (some ⟨some conn, false, 1⟩) }

/-- Deleting a listed connection. -/
theorem deleteConn_spec {s : Server} (h : s.Wf) {conn : ConnPtr} (hconn : conn ∈ s.conns)
    {c : Connection} (hc : s.heap conn = some c) (conns : List ConnPtr) :
    deleteConn { s with conns } conn =
      .ok { s with
        conns
        heap := Function.update s.heap conn none
        streams := Function.update s.streams c.handle_ (some ⟨some conn, false, 1⟩) } := by
  have hst := h.streams_eq hconn hc
  have hderef : deref { s with conns } conn = .ok c := deref_eq_ok hc
  have hstream : stream { s with conns } c.handle_ = .ok ⟨some conn, true, 0⟩ :=
    stream_eq_ok hst
  rw [deleteConn, hderef, AbortingRun.ok_bind, uvClose, hstream]
  rfl

/-- **The end of a stream** closes its connection. -/
theorem onRead_eof_spec {s : Server} (h : s.Wf) {hd : Handle} {st : Stream}
    (hst : s.streams hd = some st) (hreading : st.reading = true) (base : List UInt8) :
    ∃ conn ∈ s.conns, st.data = some conn ∧
      (∃ c, s.heap conn = some c ∧ c.handle_ = hd) ∧
        s.onRead hd uvEof base = .ok (s.closeConn conn hd) := by
  obtain ⟨conn, hconn, rfl, c, hc, rfl⟩ := h.active hd st hst hreading
  refine ⟨conn, hconn, rfl, ⟨c, hc, rfl⟩, ?_⟩
  have hdata : s.streamData c.handle_ = .ok conn := streamData_eq_ok hst rfl
  have hneg : uvEof < 0 := by decide
  rw [onRead, if_pos hneg, if_pos rfl, hdata, AbortingRun.ok_bind, deref_eq_ok hc,
    AbortingRun.ok_bind, if_pos hconn, deleteConn_spec h hconn hc]
  rfl

theorem Wf.closeConn {s : Server} (h : s.Wf) {conn : ConnPtr} {c : Connection}
    (hconn : conn ∈ s.conns) (hc : s.heap conn = some c) :
    (s.closeConn conn c.handle_).Wf where
  nodup := h.nodup.erase conn
  listed := by
    intro conn' hconn'
    obtain ⟨hne, hmem⟩ := (h.nodup.mem_erase_iff).mp hconn'
    obtain ⟨c', hc', hst'⟩ := h.listed conn' hmem
    have hst := h.streams_eq hconn hc
    have hhandle : c'.handle_ ≠ c.handle_ := by
      intro heq
      rw [heq, hst] at hst'
      cases hst'
      exact hne rfl
    refine ⟨c', ?_, ?_⟩
    · show Function.update _ _ _ conn' = _
      rw [Function.update_of_ne hne, hc']
    · show Function.update _ _ _ c'.handle_ = _
      rw [Function.update_of_ne hhandle, hst']
  active := by
    intro hd st hst hreading
    change Function.update _ _ _ hd = _ at hst
    by_cases hclosed : hd = c.handle_
    · subst hclosed
      rw [Function.update_self] at hst
      cases hst
      cases hreading
    · rw [Function.update_of_ne hclosed] at hst
      obtain ⟨conn', hconn', hdata, c', hc', hhandle⟩ := h.active hd st hst hreading
      have hne : conn' ≠ conn := by
        rintro rfl
        rw [hc] at hc'
        cases hc'
        exact hclosed hhandle.symm
      refine ⟨conn', (h.nodup.mem_erase_iff).mpr ⟨hne, hconn'⟩, hdata, c', ?_, hhandle⟩
      show Function.update _ _ _ conn' = _
      rw [Function.update_of_ne hne, hc']
  fresh := by
    intro addr haddr
    obtain ⟨hheap, hstream⟩ := h.fresh addr haddr
    have hne : (⟨addr⟩ : ConnPtr) ≠ conn := by
      rintro rfl
      rw [hc] at hheap
      cases hheap
    have hne' : (⟨addr⟩ : Handle) ≠ c.handle_ := by
      intro heq
      rw [heq, h.streams_eq hconn hc] at hstream
      cases hstream
    constructor
    · show Function.update _ _ _ _ = _
      rw [Function.update_of_ne hne, hheap]
    · show Function.update _ _ _ _ = _
      rw [Function.update_of_ne hne', hstream]
  codec := h.codec
  outgoing := h.outgoing
  reader_zero := h.reader_zero

/-! ## `on_read` with data -/

/-- The read of `nread` bytes, as the codec is given it. -/
def dataRead (nread : Int64) (base : List UInt8) (hpos : 0 ≤ nread)
    (hle : nread.toInt ≤ base.length) : Read where
  base
  nread := nread.toUInt64
  nread_le := by
    rw [Int64.toNat_toUInt64_of_le hpos, ← Int64.toNat_toInt]
    omega
  nread_le_max := by
    have hlt := nread.toInt_lt
    rw [Int64.toNat_toUInt64_of_le hpos, ← Int64.toNat_toInt]
    unfold ptrdiffMax
    omega

theorem dataRead_bytes (nread : Int64) (base : List UInt8) (hpos : 0 ≤ nread)
    (hle : nread.toInt ≤ base.length) :
    (dataRead nread base hpos hle).bytes = base.take nread.toInt.toNat := by
  rw [Read.bytes]
  show base.take nread.toUInt64.toNat = _
  rw [Int64.toNat_toUInt64_of_le hpos, ← Int64.toNat_toInt]

/-- What the codec has to decode after a read, when it held `q` before.  A negative `nread`
takes bytes back from the end. -/
def fed (q : List UInt8) (nread : Int64) (base : List UInt8) : List UInt8 :=
  if nread < 0 then q.take (q.length - nread.toInt.natAbs)
  else q ++ base.take nread.toInt.toNat

theorem fed_of_nonneg {nread : Int64} (h : 0 ≤ nread) (q base : List UInt8) :
    fed q nread base = q ++ base.take nread.toInt.toNat := if_neg (Int64.not_lt.mpr h)

/-- **The outcomes of `append` for an `ssize_t`.**  It aborts; or the buffer holds what it is
fed, which takes as many unread bytes as a negative `nread` takes back; or it took back more,
and then the loop of `onMessage` aborts. -/
theorem append_cases {b : Buffer} {q : List UInt8} (h : b.Holds q) {nread : Int64}
    {base : List UInt8} (hle : nread.toInt ≤ base.length) :
    (∃ abort, b.append base nread.toUInt64 = .error abort) ∨
    ((nread < 0 → nread.toInt.natAbs ≤ q.length) ∧
      ∃ b', b.append base nread.toUInt64 = .ok b' ∧ b'.Holds (fed q nread base)) ∨
    (nread < 0 ∧ ∃ b', b.append base nread.toUInt64 = .ok b' ∧
      Codec.onMessageStep b' = .error .outOfBounds) := by
  by_cases hneg : nread < 0
  · have hback : 2 ^ 64 - nread.toUInt64.toNat = nread.toInt.natAbs := by
      have hmin : -2 ^ 63 ≤ nread.toInt := nread.le_toInt
      have hlow : nread.toInt < 0 := Int64.lt_iff_toInt_lt.mp hneg
      rw [toNat_toUInt64_of_neg hneg]
      omega
    have happend := h.append_of_negative base (ptrdiffMax_lt_toUInt64 hneg)
    rw [hback] at happend
    rcases happend with herr | ⟨henough, b', hok, hholds⟩ | ⟨-, b', hok, hpeek, hreadable⟩
    · exact Or.inl ⟨_, herr⟩
    · refine Or.inr (Or.inl ⟨fun _ => henough, b', hok, ?_⟩)
      rw [fed, if_pos hneg]
      exact hholds
    · exact Or.inr (Or.inr ⟨hneg, b', hok, Codec.onMessageStep_of_peek_nil hpeek hreadable⟩)
  · have hpos : 0 ≤ nread := Int64.not_lt.mp hneg
    obtain ⟨rd, hrd⟩ : ∃ rd, rd = dataRead nread base hpos hle := ⟨_, rfl⟩
    have hread : b.append base nread.toUInt64 = b.append rd.base rd.nread := by
      rw [hrd]
      rfl
    have hbytes : rd.bytes = base.take nread.toInt.toNat := by
      rw [hrd, dataRead_bytes]
    rw [hread]
    rcases h.append_cases rd.nread_le rd.nread_le_max with
      ⟨-, herr⟩ | ⟨-, herr⟩ | ⟨-, -, b', hok, hholds, -⟩
    · exact Or.inl ⟨_, herr⟩
    · exact Or.inl ⟨_, herr⟩
    · refine Or.inr (Or.inl ⟨fun hlt => absurd hlt hneg, b', hok, ?_⟩)
      rw [fed_of_nonneg hpos, ← hbytes]
      exact hholds

/-- **A read that is given to the codec** and returns: the codec was fed with it, and the
messages it completes were broadcast. -/
theorem codecRead_spec {s t : Server} {q : List UInt8} (hholds : s.codec.buffer.Holds q)
    {nread : Int64} {base : List UInt8} (hle : nread.toInt ≤ base.length)
    (h : s.codecRead nread base = .ok t) :
    (nread < 0 → nread.toInt.natAbs ≤ q.length) ∧
      ∃ codec u, codec.buffer.Holds (decoder.drain (fed q nread base)).2 ∧
        deliverAll onStringMessageBack s (decoder.drain (fed q nread base)).1 = .ok u ∧
        t = { u with codec } := by
  rw [codecRead] at h
  obtain ⟨⟨codec, u⟩, hread, ht⟩ := AbortingRun.bind_eq_ok.mp h
  cases ht
  rw [Codec.onUvRead] at hread
  obtain ⟨b, happend, hread⟩ := AbortingRun.bind_eq_ok.mp hread
  rcases append_cases hholds hle with ⟨abort, herr⟩ | ⟨henough, b', hok, hfed⟩ | ⟨-, b', hok, herr⟩
  · cases herr.symm.trans happend
  · cases hok.symm.trans happend
    obtain ⟨b₁, hb₁, hcb⟩ := Codec.onMessage_spec hfed
    rw [hcb] at hread
    obtain ⟨p, hloop, hpair⟩ := AbortingRun.bind_eq_ok.mp hread
    obtain ⟨u', hu, hpair'⟩ := AbortingRun.bind_eq_ok.mp hloop
    cases hpair'
    cases hpair
    exact ⟨henough, ⟨b₁⟩, u, hb₁, hu, rfl⟩
  · cases hok.symm.trans happend
    rw [Codec.onMessage_of_step_error herr] at hread
    cases hread

/-! ## Reachable states -/

/-- **The three ways a read returns**: there was no data; the stream ended; or the codec was
fed with the read, which need not have brought data. -/
theorem onRead_spec {s t : Server} (hwf : s.Wf) {q : List UInt8}
    (hholds : s.codec.buffer.Holds q) {hd : Handle} {nread : Int64} {base : List UInt8}
    (henabled : Enabled s (.read hd nread base)) (h : s.onRead hd nread base = .ok t) :
    (nread = 0 ∧ t = s) ∨
    (nread = uvEof ∧ ∃ conn ∈ s.conns, (∃ c, s.heap conn = some c ∧ c.handle_ = hd) ∧
      t = s.closeConn conn hd) ∨
    (nread ≠ 0 ∧ nread ≠ uvEof ∧ (nread < 0 → nread.toInt.natAbs ≤ q.length) ∧
      s.conns ≠ [] ∧ ∃ codec u, codec.buffer.Holds (decoder.drain (fed q nread base)).2 ∧
        deliverAll onStringMessageBack s (decoder.drain (fed q nread base)).1 = .ok u ∧
        t = { u with codec }) := by
  obtain ⟨⟨st, hst, hreading⟩, hle⟩ := henabled
  obtain ⟨conn, hconn, hdata, hc, heof⟩ := onRead_eof_spec hwf hst hreading base
  have hstream : s.streamData hd = .ok conn := streamData_eq_ok hst hdata
  by_cases hneg : nread < 0
  · by_cases hnread : nread = uvEof
    · subst hnread
      rw [heof] at h
      cases h
      exact Or.inr (Or.inl ⟨rfl, conn, hconn, hc, rfl⟩)
    · have hzero : nread ≠ 0 := by
        rintro rfl
        exact absurd hneg (by decide)
      rw [onRead, if_pos hneg, if_neg hnread, hstream, AbortingRun.ok_bind] at h
      obtain ⟨henough, hcodec⟩ := codecRead_spec hholds hle h
      exact Or.inr (Or.inr ⟨hzero, hnread, henough, List.ne_nil_of_mem hconn, hcodec⟩)
  · by_cases hzero : nread = 0
    · rw [onRead, if_neg hneg, if_pos hzero] at h
      cases h
      exact Or.inl ⟨hzero, rfl⟩
    · have hnread : nread ≠ uvEof := by
        rintro rfl
        exact absurd (by decide : uvEof < 0) hneg
      rw [onRead, if_neg hneg, if_neg hzero, hstream, AbortingRun.ok_bind] at h
      obtain ⟨henough, hcodec⟩ := codecRead_spec hholds hle h
      exact Or.inr (Or.inr ⟨hzero, hnread, henough, List.ne_nil_of_mem hconn, hcodec⟩)

/-- The fields other than the codec do not see the codec. -/
theorem Wf.with_codec {s : Server} (h : s.Wf) {codec : Codec} (hcodec : codec.buffer.Wf) :
    ({ s with codec } : Server).Wf :=
  { h with codec := hcodec }

/-- **Induction over the callbacks.**  What holds at the start, and survives an accepted
connection, the end of a stream, the broadcast of a message while there are connections,
and whatever happens to the codec, holds in every reachable state. -/
theorem Reaches.induction {P : Server → Prop} (hstart : P start)
    (haccept : ∀ s sendBuf, s.Wf → P s → P (s.accept sendBuf))
    (hclose : ∀ s conn c, s.Wf → conn ∈ s.conns → s.heap conn = some c → P s →
      P (s.closeConn conn c.handle_))
    (hmessage : ∀ s msg t, s.Wf → s.conns ≠ [] → msg.length ≤ maxLength → P s →
      onStringMessageBack msg s = .ok t → P t)
    (hcodec : ∀ s codec, P s → P { s with codec })
    {history : List Event} {s : Server} (h : Reaches history s) : s.Wf ∧ P s := by
  refine AbortingRun.Reaches.invariant (P := fun s => s.Wf ∧ P s) h ⟨wf_start, hstart⟩ ?_
  rintro s event t ⟨hwf, hP⟩ henabled hstep
  cases event with
  | connection status accepted sendBuf =>
      rcases onConnection_spec hstep with ⟨-, rfl⟩ | ⟨-, -, rfl⟩
      · exact ⟨hwf, hP⟩
      · exact ⟨hwf.accept sendBuf, haccept s sendBuf hwf hP⟩
  | read hd nread base =>
      have hholds : s.codec.buffer.Holds s.codec.buffer.unread := ⟨hwf.codec, rfl⟩
      rcases onRead_spec hwf hholds henabled hstep with
        ⟨-, rfl⟩ | ⟨-, conn, hconn, ⟨c, hc, rfl⟩, rfl⟩ |
          ⟨-, -, -, hconns, codec, u, hcodec', hu, rfl⟩
      · exact ⟨hwf, hP⟩
      · exact ⟨hwf.closeConn hconn hc, hclose s conn c hwf hconn hc hP⟩
      · have hmax : ∀ msg ∈ (decoder.drain (fed s.codec.buffer.unread nread base)).1,
            msg.length ≤ maxLength := fun msg => Codec.length_le_of_mem_drain
        obtain ⟨hwfu, hsame, hPu⟩ :=
          deliverAll_induction (P := fun _ t => P t) hwf hP (by
            intro given t msg u hwft hsame hshort hPt hmsg
            exact hmessage t msg u hwft (hsame.conns ▸ hconns) hshort hPt hmsg) hmax hu
        exact ⟨hwfu.with_codec hcodec'.wf, hcodec u codec hPu⟩

/-- Every reachable state satisfies the invariant. -/
theorem Reaches.wf {history : List Event} {s : Server} (h : Reaches history s) : s.Wf :=
  (h.induction (P := fun _ => True) trivial (fun _ _ _ _ => trivial)
    (fun _ _ _ _ _ _ _ => trivial) (fun _ _ _ _ _ _ _ _ => trivial)
    (fun _ _ _ => trivial)).1

end Server

end LearnUv
