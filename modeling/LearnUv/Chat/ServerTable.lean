import LearnUv.Chat.ServerSpec

/-!
# The connection table of the chat server

What a read callback with a negative `nread` does to the table of connections, in every
reachable state.  `on_read` has a branch for `UV_EOF`; every other error code is logged
and falls through to the codec, as a `size_t`.  There it makes `append` throw, or shrink the
buffer of the codec by as many bytes as the error code is negative; in neither case is the
connection closed.

As long as the counter behind the ids does not wrap, the table lists what was accepted
and has not ended, in the order of the ids.

## Main Definitions

* `ClosesOnly` — one connection was closed, and nothing else changed
* `table` — the connections a history has accepted and not seen end
* `TableExact` — the server has these, in this order, and no other stream is being read

## Main Results

* `tableExact_of_reaches` — the table is exact in every reachable state

* `failedRead_closesOnly_iff` — a failed read closes its connection and changes nothing
  else, exactly when it is the end of the stream
-/

namespace LearnUv

open Codec (decoder maxLength)

namespace Server

/-- `t` is `s` without the connection `conn` of the handle `h`: it is not listed any
more, its handle has been closed once more, and the codec, the outgoing buffer, the
other connections and the other handles are as they were. -/
structure ClosesOnly (s : Server) (conn : ConnPtr) (h : Handle) (t : Server) : Prop where
  conns : t.conns = s.conns.erase conn
  removed : conn ∉ t.conns
  closed : ∃ st st', s.streams h = some st ∧ t.streams h = some st' ∧
    st'.closes = st.closes + 1 ∧ st'.reading = false
  codec : t.codec = s.codec
  buf : t.buf = s.buf
  heap : ∀ conn' ≠ conn, t.heap conn' = s.heap conn'
  streams : ∀ h' ≠ h, t.streams h' = s.streams h'

theorem closesOnly_closeConn {s : Server} (h : s.Wf) {conn : ConnPtr} {c : Connection}
    (hconn : conn ∈ s.conns) (hc : s.heap conn = some c) :
    ClosesOnly s conn c.handle_ (s.closeConn conn c.handle_) where
  conns := rfl
  removed := by
    intro hmem
    exact ((h.nodup.mem_erase_iff).mp hmem).1 rfl
  closed := ⟨_, _, h.streams_eq hconn hc, Function.update_self _ _ _, rfl, rfl⟩
  codec := rfl
  buf := rfl
  heap := by
    intro conn' hne
    exact Function.update_of_ne hne _ _
  streams := by
    intro h' hne
    exact Function.update_of_ne hne _ _

/-- After an error code other than `UV_EOF` the connection is still listed, if the callback
returns at all. -/
theorem mem_conns_of_failed {s t : Server} (h : s.Wf) {conn : ConnPtr} {c : Connection}
    (hconn : conn ∈ s.conns) (hc : s.heap conn = some c) {nread : Int64} (hneg : nread < 0)
    (hnread : nread ≠ uvEof) {base : List UInt8}
    (hread : s.onRead c.handle_ nread base = .ok t) : conn ∈ t.conns := by
  have hholds : s.codec.buffer.Holds s.codec.buffer.unread := ⟨h.codec, rfl⟩
  have hlow : nread.toInt < 0 := Int64.lt_iff_toInt_lt.mp hneg
  have henabled : s.Enabled (.read c.handle_ nread base) :=
    ⟨⟨_, h.streams_eq hconn hc, rfl⟩, by omega⟩
  rcases onRead_spec h hholds henabled hread with
    ⟨rfl, -⟩ | ⟨heof, -⟩ | ⟨-, -, -, -, codec, u, -, hu, rfl⟩
  · exact absurd hneg (by decide)
  · exact absurd heof hnread
  · obtain ⟨-, hsame, -⟩ := deliverAll_spec h (fun msg => Codec.length_le_of_mem_drain) hu
    exact hsame.conns ▸ hconn

/-- **A failed read leaves the server consistent exactly when it is the end of the
stream.**  In every reachable state, for every connection and every negative `nread`:
any other error code becomes a length that no buffer can take, and the server stops in
`append`, or `append` takes bytes back that other reads have brought; the connection is not
removed. -/
theorem failedRead_closesOnly_iff {history : List Event} {s : Server}
    (hreach : Reaches history s) {conn : ConnPtr} {c : Connection} (hconn : conn ∈ s.conns)
    (hc : s.heap conn = some c) {nread : Int64} (hneg : nread < 0) (base : List UInt8) :
    (∃ t, s.step (.read c.handle_ nread base) = .ok t ∧ ClosesOnly s conn c.handle_ t) ↔
      nread = uvEof := by
  have hwf := hreach.wf
  constructor
  · rintro ⟨t, hstep, hcloses⟩
    by_contra hnread
    exact hcloses.removed (mem_conns_of_failed hwf hconn hc hneg hnread hstep)
  · rintro rfl
    obtain ⟨conn', -, hdata, -, heof⟩ :=
      onRead_eof_spec hwf (hwf.streams_eq hconn hc) rfl base
    cases hdata
    exact ⟨_, heof, closesOnly_closeConn hwf hconn hc⟩

/-- A send buffer of zeros. -/
def zeroBuf : CharArray 8192 := CharArray.zeros 8192

/-- The server with one connection. -/
def oneConn : Server := start.accept zeroBuf

theorem reaches_oneConn : Reaches [.connection 0 0 zeroBuf] oneConn :=
  AbortingRun.Reaches.event .start trivial rfl

theorem failedRead_closesOnly_iff_oneConn :
    (∃ t, oneConn.step (.read ⟨0⟩ uvEof []) = .ok t ∧ ClosesOnly oneConn ⟨0⟩ ⟨0⟩ t) ↔
      uvEof = uvEof :=
  failedRead_closesOnly_iff reaches_oneConn (c := ⟨0, ⟨0⟩, zeroBuf⟩)
    (List.mem_singleton_self _) rfl (by decide) []

/-- `ECONNRESET` in the server with one connection. -/
theorem not_closesOnly_connReset :
    Reaches [.connection 0 0 zeroBuf] oneConn ∧ (⟨0⟩ : ConnPtr) ∈ oneConn.conns ∧
      ¬∃ t, oneConn.step (.read ⟨0⟩ (-104) []) = .ok t ∧ ClosesOnly oneConn ⟨0⟩ ⟨0⟩ t := by
  have hconn : (⟨0⟩ : ConnPtr) ∈ oneConn.conns := List.mem_singleton_self _
  refine ⟨reaches_oneConn, hconn, ?_⟩
  rintro ⟨t, hstep, hcloses⟩
  have hlisted := mem_conns_of_failed (c := ⟨0, ⟨0⟩, zeroBuf⟩) reaches_oneConn.wf hconn rfl
    (show (-104 : Int64) < 0 by decide) (by decide) hstep
  exact hcloses.removed hlisted

/-! ## The table along a run -/

/-- A connection comes in. -/
def Event.accepts : Event → Bool
  | .connection status _ _ => !decide (status < 0)
  | .read _ _ _ => false

/-- The stream of `h` ends. -/
def Event.ends (h : Handle) : Event → Bool
  | .connection _ _ _ => false
  | .read h' nread _ => decide (h' = h) && decide (nread = uvEof)

/-- How many connections were accepted. -/
def accepted (history : List Event) : ℕ := history.countP Event.accepts

/-- The stream of `h` has ended. -/
def atEof (history : List Event) (h : Handle) : Bool := history.any (Event.ends h)

/-- The connections that were accepted and whose streams have not ended, in the order
they came in.  Addresses are given out in that order. -/
def table (history : List Event) : List ConnPtr :=
  ((List.range (accepted history)).map ConnPtr.mk).filter
    fun conn => !atEof history ⟨conn.addr⟩

@[simp] theorem accepted_concat (history : List Event) (event : Event) :
    accepted (history ++ [event]) = accepted history + if event.accepts then 1 else 0 := by
  simp [accepted, List.countP_append, List.countP_singleton]

@[simp] theorem atEof_concat (history : List Event) (event : Event) (h : Handle) :
    atEof (history ++ [event]) h = (atEof history h || event.ends h) := by
  simp [atEof]

theorem mem_table {history : List Event} {conn : ConnPtr} :
    conn ∈ table history ↔ conn.addr < accepted history ∧ atEof history ⟨conn.addr⟩ = false := by
  obtain ⟨addr⟩ := conn
  simp [table]

/-- The connections are listed in the order they came in. -/
theorem pairwise_table (history : List Event) :
    (table history).Pairwise fun conn conn' => conn.addr < conn'.addr := by
  refine List.Pairwise.filter _ ?_
  rw [List.pairwise_map]
  exact List.pairwise_lt_range

theorem nodup_table (history : List Event) : (table history).Nodup := by
  refine (pairwise_table history).imp ?_
  rintro conn conn' hlt rfl
  exact Nat.lt_irrefl _ hlt

/-- An event that neither brings a connection nor ends a stream. -/
theorem table_of_quiet {history : List Event} {event : Event} (haccepts : event.accepts = false)
    (hends : ∀ h, event.ends h = false) : table (history ++ [event]) = table history := by
  simp [table, haccepts, hends]

/-- A new connection is listed last. -/
theorem table_of_accepts {history : List Event} {event : Event}
    (haccepts : event.accepts = true) (hends : ∀ h, event.ends h = false)
    (hnew : atEof history ⟨accepted history⟩ = false) :
    table (history ++ [event]) = table history ++ [⟨accepted history⟩] := by
  simp [table, haccepts, hends, List.range_succ, hnew]

/-- The end of a stream takes its connection out of the list, and no other. -/
theorem table_of_ends {history : List Event} {addr : ℕ} {base : List UInt8} :
    table (history ++ [.read ⟨addr⟩ uvEof base]) = (table history).erase ⟨addr⟩ := by
  rw [(nodup_table history).erase_eq_filter, table, table, List.filter_filter]
  simp only [accepted_concat, Event.accepts, Bool.false_eq_true, if_false, Nat.add_zero]
  refine List.filter_congr ?_
  intro conn _
  obtain ⟨addr'⟩ := conn
  by_cases haddr : addr' = addr
  · subst haddr
    simp [Event.ends]
  · have haddr' : ¬addr = addr' := fun heq => haddr heq.symm
    simp [Event.ends, haddr, haddr']

/-- The server of a history: what has been accepted is numbered in order, and what has
ended was closed. -/
structure Numbered (history : List Event) (s : Server) : Prop where
  allocated : s.allocated = accepted history
  connections : s.connections = Int32.ofNat s.allocated
  identity : ∀ conn ident, (s.heap conn).map Connection.identity = some ident →
    ident = (Int32.ofNat conn.addr, ⟨conn.addr⟩)
  conns : s.conns = table history
  closes : ∀ addr < s.allocated, ∃ st, s.streams ⟨addr⟩ = some st ∧
    st.closes = if atEof history ⟨addr⟩ then 1 else 0
  ended : ∀ h, atEof history h = true → h.addr < s.allocated

theorem numbered_start : Numbered [] start where
  allocated := rfl
  connections := rfl
  identity := by
    intro conn ident hident
    cases hident
  conns := rfl
  closes := by
    intro addr haddr
    cases haddr
  ended := by
    intro h hended
    cases hended

namespace Numbered

variable {history : List Event} {s : Server}

/-- A callback that leaves the table alone. -/
theorem quiet (h : Numbered history s) {t : Server} (hsame : SameTable s t) {event : Event}
    (haccepts : event.accepts = false) (hends : ∀ hd, event.ends hd = false) (codec : Codec) :
    Numbered (history ++ [event]) { t with codec } where
  allocated := by
    simp [haccepts, hsame.allocated, h.allocated]
  connections := by
    simp [hsame.connections, hsame.allocated, h.connections]
  identity := by
    intro conn ident hident
    rw [hsame.identity] at hident
    exact h.identity conn ident hident
  conns := by
    rw [table_of_quiet haccepts hends, ← h.conns]
    exact hsame.conns
  closes := by
    intro addr haddr
    simp only [atEof_concat, hends, Bool.or_false, hsame.streams]
    exact h.closes addr (by simpa [hsame.allocated] using haddr)
  ended := by
    intro hd hended
    simp only [atEof_concat, hends, Bool.or_false] at hended
    simpa [hsame.allocated] using h.ended hd hended

/-- A connection is accepted: the next number is its id and its address. -/
theorem accept (h : Numbered history s) (sendBuf : CharArray 8192) {event : Event}
    (haccepts : event.accepts = true) (hends : ∀ hd, event.ends hd = false) :
    Numbered (history ++ [event]) (s.accept sendBuf) where
  allocated := by
    simp [Server.accept, haccepts, h.allocated]
  connections := by
    simp [Server.accept, h.connections]
  identity := by
    intro conn ident hident
    by_cases hnew : conn = ⟨s.allocated⟩
    · subst hnew
      simp only [Server.accept, Function.update_self, Option.map_some, Option.some_inj] at hident
      rw [← hident, Connection.identity, h.connections]
    · simp only [Server.accept, Function.update_of_ne hnew] at hident
      exact h.identity conn ident hident
  conns := by
    have hnew : atEof history ⟨accepted history⟩ = false := by
      by_contra hended
      have hlt := h.ended _ (Bool.eq_true_of_not_eq_false hended)
      rw [h.allocated] at hlt
      exact Nat.lt_irrefl _ hlt
    rw [table_of_accepts haccepts hends hnew, ← h.conns, ← h.allocated]
    rfl
  closes := by
    intro addr haddr
    simp only [atEof_concat, hends, Bool.or_false]
    by_cases hnew : addr = s.allocated
    · have hended : atEof history ⟨s.allocated⟩ = false := by
        by_contra hended
        exact Nat.lt_irrefl _ (h.ended _ (Bool.eq_true_of_not_eq_false hended))
      subst hnew
      rw [hended]
      exact ⟨_, Function.update_self _ _ _, rfl⟩
    · obtain ⟨st, hst, hcloses⟩ :=
        h.closes addr (Nat.lt_of_le_of_ne (Nat.lt_succ_iff.mp haddr) hnew)
      refine ⟨st, ?_, hcloses⟩
      show Function.update _ _ _ _ = _
      rw [Function.update_of_ne (fun heq => hnew (congrArg Handle.addr heq)), hst]
  ended := by
    intro hd hended
    simp only [atEof_concat, hends, Bool.or_false] at hended
    exact Nat.lt_succ_of_lt (h.ended hd hended)

/-- The address of a connection is that of its handle. -/
theorem handle_eq (h : Numbered history s) {conn : ConnPtr} {c : Connection}
    (hc : s.heap conn = some c) : c.handle_ = ⟨conn.addr⟩ := by
  have hident := h.identity conn c.identity (by rw [hc]; rfl)
  exact congrArg Prod.snd hident

theorem id_eq (h : Numbered history s) {conn : ConnPtr} {c : Connection}
    (hc : s.heap conn = some c) : c.id_ = Int32.ofNat conn.addr := by
  have hident := h.identity conn c.identity (by rw [hc]; rfl)
  exact congrArg Prod.fst hident

/-- The end of a stream. -/
theorem close (h : Numbered history s) (hwf : s.Wf) {conn : ConnPtr} {c : Connection}
    (hconn : conn ∈ s.conns) (hc : s.heap conn = some c) (base : List UInt8) :
    Numbered (history ++ [.read c.handle_ uvEof base]) (s.closeConn conn c.handle_) := by
  rw [h.handle_eq hc]
  refine
    { allocated := ?_
      connections := h.connections
      identity := ?_
      conns := ?_
      closes := ?_
      ended := ?_ }
  · simp [closeConn, Event.accepts, h.allocated]
  · intro conn' ident hident
    by_cases hconn' : conn' = conn
    · subst hconn'
      simp [closeConn] at hident
    · simp only [closeConn, Function.update_of_ne hconn'] at hident
      exact h.identity conn' ident hident
  · rw [table_of_ends, ← h.conns]
    rfl
  · intro addr haddr
    by_cases hclosed : addr = conn.addr
    · subst hclosed
      exact ⟨_, Function.update_self _ _ _, by simp [Event.ends]⟩
    · obtain ⟨st, hst, hcloses⟩ := h.closes addr haddr
      refine ⟨st, ?_, ?_⟩
      · show Function.update _ _ _ _ = _
        rw [Function.update_of_ne (fun heq => hclosed (congrArg Handle.addr heq)), hst]
      · have hother : ¬conn.addr = addr := fun heq => hclosed heq.symm
        simpa [Event.ends, hother] using hcloses
  · intro hd hended
    rw [atEof_concat, Bool.or_eq_true] at hended
    rcases hended with hended | hended
    · exact h.ended hd hended
    · have hhd : (⟨conn.addr⟩ : Handle) = hd := by simpa [Event.ends] using hended
      rw [← hhd]
      exact hwf.addr_lt hc

end Numbered

/-- Every reachable server is numbered. -/
theorem Reaches.numbered {history : List Event} {s : Server} (h : Reaches history s) :
    Numbered history s := by
  induction h with
  | start => exact numbered_start
  | @event history s t event before hevent hstep ih =>
      have hwf : s.Wf := Reaches.wf before
      cases event with
      | connection status accepted sendBuf =>
          rcases onConnection_spec hstep with ⟨hstatus, rfl⟩ | ⟨hstatus, -, rfl⟩
          · exact ih.quiet (.refl t) (by simp [Event.accepts, hstatus]) (fun _ => rfl) t.codec
          · exact ih.accept sendBuf (by simp [Event.accepts, hstatus]) (fun _ => rfl)
      | read hd nread base =>
          have hholds : s.codec.buffer.Holds s.codec.buffer.unread := ⟨hwf.codec, rfl⟩
          rcases onRead_spec hwf hholds hevent hstep with
            ⟨rfl, rfl⟩ | ⟨rfl, conn, hconn, ⟨c, hc, rfl⟩, rfl⟩ |
              ⟨-, hne, -, -, codec, u, -, hu, rfl⟩
          · exact ih.quiet (.refl t) rfl (fun _ => by simp [Event.ends, uvEof]) t.codec
          · exact ih.close hwf hconn hc base
          · have hmax : ∀ msg ∈ (decoder.drain (fed s.codec.buffer.unread nread base)).1,
                msg.length ≤ maxLength := fun msg => Codec.length_le_of_mem_drain
            obtain ⟨-, hsame, -⟩ := deliverAll_spec hwf hmax hu
            exact ih.quiet hsame rfl (fun _ => by simp [Event.ends, hne]) codec

/-- **The table of connections is exact**: it lists the connections that were accepted
and have not ended, once each, by increasing id; whatever is being read belongs to one of
them; and the end of a stream takes out that connection and closes its handle. -/
structure TableExact (history : List Event) (s : Server) : Prop where
  conns : s.conns = table history
  nodup : s.conns.Nodup
  /-- The id is the number of the connection, counted as they come in. -/
  ids : ∀ conn ∈ s.conns, ∃ c, s.heap conn = some c ∧ c.id_.toInt = conn.addr
  increasing : s.conns.Pairwise fun conn conn' => ∃ c c', s.heap conn = some c ∧
    s.heap conn' = some c' ∧ c.id_ < c'.id_
  reading : ∀ h st, s.streams h = some st → st.reading = true →
    ∃ conn ∈ s.conns, st.data = some conn ∧ ∃ c, s.heap conn = some c ∧ c.handle_ = h
  /-- The handle of an accepted connection was closed once if its stream has ended, and
  not at all otherwise. -/
  closes : ∀ addr < accepted history, ∃ st, s.streams ⟨addr⟩ = some st ∧
    st.closes = if atEof history ⟨addr⟩ then 1 else 0
  eof : ∀ h base, s.Enabled (.read h uvEof base) → ∃ conn ∈ s.conns,
    (∃ c, s.heap conn = some c ∧ c.handle_ = h) ∧
      ∃ t, s.step (.read h uvEof base) = .ok t ∧ ClosesOnly s conn h t

/-- **The table is exact in every reachable state** in which fewer than `2 ^ 31`
connections have been accepted. -/
theorem tableExact_of_reaches {history : List Event} {s : Server} (hreach : Reaches history s)
    (hcount : accepted history < 2 ^ 31) : TableExact history s := by
  have hwf := hreach.wf
  have hnum := hreach.numbered
  have hids : ∀ conn ∈ s.conns, ∃ c, s.heap conn = some c ∧ c.id_.toInt = conn.addr := by
    intro conn hconn
    obtain ⟨c, hc, -⟩ := hwf.listed conn hconn
    have hlt := hwf.addr_lt hc
    rw [hnum.allocated] at hlt
    refine ⟨c, hc, ?_⟩
    rw [hnum.id_eq hc, Int32.toInt_ofNat_of_lt (hlt.trans hcount)]
  refine
    { conns := hnum.conns
      nodup := hwf.nodup
      ids := hids
      increasing := ?_
      reading := ?_
      closes := ?_
      eof := ?_ }
  · have hsorted := pairwise_table history
    rw [← hnum.conns] at hsorted
    refine hsorted.imp_of_mem ?_
    intro conn conn' hconn hconn' hlt
    obtain ⟨c, hc, hid⟩ := hids conn hconn
    obtain ⟨c', hc', hid'⟩ := hids conn' hconn'
    refine ⟨c, c', hc, hc', ?_⟩
    rw [Int32.lt_iff_toInt_lt, hid, hid']
    exact_mod_cast hlt
  · intro h st hst hreading
    obtain ⟨conn, hconn, rfl, c, hc, hhandle⟩ := hwf.active h st hst hreading
    exact ⟨conn, hconn, rfl, c, hc, hhandle⟩
  · rw [← hnum.allocated]
    exact hnum.closes
  · rintro h base ⟨⟨st, hst, hreading⟩, -⟩
    obtain ⟨conn, hconn, -, ⟨c, hc, rfl⟩, heof⟩ := onRead_eof_spec hwf hst hreading base
    exact ⟨conn, hconn, ⟨c, hc, rfl⟩, _, heof, closesOnly_closeConn hwf hconn hc⟩

/-- Two connections came in, and the first one ended. -/
def twoThenOne : List Event :=
  [.connection 0 0 zeroBuf, .connection 0 0 zeroBuf, .read ⟨0⟩ uvEof []]

/-- The server with the second of two connections. -/
def secondConn : Server := (oneConn.accept zeroBuf).closeConn ⟨0⟩ ⟨0⟩

theorem reaches_secondConn : Reaches twoThenOne secondConn := by
  have htwo : Reaches [.connection 0 0 zeroBuf, .connection 0 0 zeroBuf]
      (oneConn.accept zeroBuf) := AbortingRun.Reaches.event reaches_oneConn trivial rfl
  have hstream : (oneConn.accept zeroBuf).streams ⟨0⟩ = some ⟨some ⟨0⟩, true, 0⟩ := rfl
  have hread : (oneConn.accept zeroBuf).step (.read ⟨0⟩ uvEof []) = .ok secondConn := rfl
  exact AbortingRun.Reaches.event htwo ⟨⟨_, hstream, rfl⟩, by decide⟩ hread

theorem tableExact_secondConn : TableExact twoThenOne secondConn :=
  tableExact_of_reaches reaches_secondConn (by decide)

end Server

end LearnUv
