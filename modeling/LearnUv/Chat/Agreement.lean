import LearnUv.Chat.ServerBroadcast
import LearnUv.Library.Multicast

/-!
# What each client of the chat server is sent

The server is a group multicast: a connection joins when it is accepted and leaves at its
end, and each message is cast to the connections there are.  What is cast is not the frame
of the message but the front of the outgoing buffer, as many bytes as the frame has; it is
the same for everyone all the same, and everyone gets it in the same order.

## Main Definitions

* `submittedTo` — the byte strings that were submitted to one connection
* `wire` — the byte strings that a sequence of messages is sent as
* `group` — the group multicast behind a state of the server

## Main Results

* `exists_changes` — what the server does between two states is a run of the multicast
* `submittedTo_of_reaches` — a connection is sent what is broadcast while it is there
* `agreement` — the connections agree on the order
-/

namespace LearnUv

open Codec (frame frames decoder maxLength deliverAll)
open Multicast (Change joins leaves casts joins_append leaves_append casts_append)

/-! ## The byte strings -/

/-- The byte strings submitted to a connection in one broadcast. -/
def Broadcast.sentTo (b : Broadcast) (conn : ConnPtr) : List (List UInt8) :=
  (b.writes.filter fun w => w.conn = conn).map Write.bytes

/-- A connection there was at the broadcast is sent the bytes once, and others nothing. -/
theorem Broadcast.sentTo_eq {b : Broadcast} {bytes : List UInt8} (hnodup : b.conns.Nodup)
    (hwrites : b.writes.map (fun w => (w.conn, w.bytes)) = b.conns.map fun conn => (conn, bytes))
    (conn : ConnPtr) : b.sentTo conn = if conn ∈ b.conns then [bytes] else [] := by
  have hpairs : b.sentTo conn =
      ((b.writes.map fun w => (w.conn, w.bytes)).filter fun p => p.1 = conn).map Prod.snd := by
    rw [List.filter_map, List.map_map]
    rfl
  have hfilter : ((b.conns.map fun c => (c, bytes)).filter fun p => p.1 = conn).map Prod.snd =
      (b.conns.filter fun c => c = conn).map fun _ => bytes := by
    rw [List.filter_map, List.map_map]
    rfl
  rw [hpairs, hwrites, hfilter, List.filter_eq, List.map_replicate]
  by_cases hconn : conn ∈ b.conns
  · rw [List.count_eq_one_of_mem hnodup hconn, if_pos hconn]
    rfl
  · rw [List.count_eq_zero_of_not_mem hconn, if_neg hconn]
    rfl

namespace Codec

/-- What messages are sent as, after others have been encoded: the front of everything
that was ever encoded, as many bytes as the frame has. -/
def fronts (before : List (List UInt8)) : List (List UInt8) → List (List UInt8)
  | [] => []
  | msg :: msgs => (frames (before ++ [msg])).take (frame msg).length ::
      fronts (before ++ [msg]) msgs

/-- What later messages are sent as depends on those that were encoded before. -/
theorem fronts_append (before first second : List (List UInt8)) :
    fronts before (first ++ second) = fronts before first ++ fronts (before ++ first) second := by
  induction first generalizing before with
  | nil => simp [fronts]
  | cons msg first ih => simp [fronts, ih]

/-- There is one byte string for each message. -/
@[simp] theorem length_fronts (before msgs : List (List UInt8)) :
    (fronts before msgs).length = msgs.length := by
  induction msgs generalizing before with
  | nil => rfl
  | cons msg msgs ih => simp [fronts, ih]

end Codec

open Codec (fronts fronts_append length_fronts)

namespace Server

/-- The byte strings submitted to a connection. -/
def submittedTo (s : Server) (conn : ConnPtr) : List (List UInt8) :=
  s.broadcasts.flatMap fun b => b.sentTo conn

/-- The byte strings that messages are sent as, from the start of the program. -/
def wire (delivered : List (List UInt8)) : List (List UInt8) :=
  fronts [] (delivered.map cString)

/-- What is sent for more messages comes behind what was sent. -/
theorem wire_append (first second : List (List UInt8)) :
    wire (first ++ second) =
      wire first ++ fronts (first.map cString) (second.map cString) := by
  rw [wire, List.map_append, fronts_append, List.nil_append]
  rfl

/-- There is one byte string for each message that was delivered. -/
@[simp] theorem length_wire (delivered : List (List UInt8)) :
    (wire delivered).length = delivered.length := by
  rw [wire, length_fronts, List.length_map]

/-- What was encoded are the C strings of what was delivered. -/
theorem encoded_eq (s : Server) : s.encoded = s.delivered.map cString := by
  rw [encoded, delivered, List.map_map]
  rfl

/-! ## The multicast behind the server -/

/-- The group: its members are the connections, and what was cast are the byte strings. -/
def group (s : Server) : Multicast.Group ConnPtr (List UInt8) where
  members := s.conns
  log := (s.broadcasts.zip (wire s.delivered)).map fun p => ⟨p.1.conns, p.2⟩

/-- And one for each broadcast. -/
theorem length_wire_delivered (s : Server) :
    (wire s.delivered).length = s.broadcasts.length := by
  rw [length_wire, delivered, List.length_map]

/-- What was cast to the group are the byte strings of the broadcasts. -/
@[simp] theorem values_group (s : Server) : s.group.values = wire s.delivered := by
  rw [Multicast.Group.values, group, List.map_map]
  exact List.map_snd_zip (length_wire_delivered s).le

/-- **A broadcast is a cast** to the connections there are. -/
theorem group_message {s t : Server} (h : s.Wf) {msg : List UInt8}
    (hmax : msg.length ≤ maxLength) (hmsg : onStringMessageBack msg s = .ok t) :
    t.group = s.group.step
        (.cast ((frames (s.encoded ++ [cString msg])).take (frame (cString msg)).length)) ∧
      ∀ conn, t.submittedTo conn = s.submittedTo conn ++ if conn ∈ s.conns then
        [(frames (s.encoded ++ [cString msg])).take (frame (cString msg)).length] else [] := by
  obtain ⟨hsame, -, writes, hlog, hwrites, -⟩ := onStringMessageBack_eq_ok h hmax hmsg
  have hdelivered := delivered_of_onStringMessageBack h hmax hmsg
  have hwire : wire t.delivered = wire s.delivered ++
      [(frames (s.encoded ++ [cString msg])).take (frame (cString msg)).length] := by
    rw [hdelivered, wire_append, encoded_eq]
    rfl
  constructor
  · simp only [group, hlog, hwire, hsame.conns, Multicast.Group.step,
      List.zip_append (length_wire_delivered s).symm, List.map_append]
    rfl
  · intro conn
    rw [submittedTo, hlog, List.flatMap_append, List.flatMap_singleton,
      Broadcast.sentTo_eq h.nodup hwrites]
    rfl

/-- The casts of the messages that one read completes. -/
theorem group_deliverAll {s t : Server} (h : s.Wf) {msgs : List (List UInt8)}
    (hmax : ∀ msg ∈ msgs, msg.length ≤ maxLength)
    (hrun : deliverAll onStringMessageBack s msgs = .ok t) :
    t.group = s.group.run ((fronts s.encoded (msgs.map cString)).map .cast) := by
  have hinduction := deliverAll_induction (P := fun given t =>
    t.encoded = s.encoded ++ given.map cString ∧
      t.group = s.group.run ((fronts s.encoded (given.map cString)).map .cast)) h
    ⟨(List.append_nil _).symm, rfl⟩ ?_ hmax hrun
  · exact hinduction.2.2.2
  · rintro given t msg u hwft - hshort ⟨hencoded, hgroup⟩ hmsg
    obtain ⟨hcast, -⟩ := group_message hwft hshort hmsg
    have hdelivered := delivered_of_onStringMessageBack hwft hshort hmsg
    constructor
    · rw [encoded_eq, hdelivered, List.map_append, ← encoded_eq, hencoded, List.map_append,
        List.append_assoc]
    · rw [hcast, hgroup, hencoded, List.map_append, fronts_append, List.map_append,
        Multicast.Group.run_append]
      rfl

/-- What was submitted to a connection is what the group has seen of it. -/
theorem submittedTo_eq_view {history : List Event} {s : Server} (h : Reaches history s) :
    ∀ conn, s.submittedTo conn = s.group.view conn := by
  refine (h.induction (P := fun s => ∀ conn, s.submittedTo conn = s.group.view conn)
    ?_ ?_ ?_ ?_ ?_).2
  · exact fun conn => rfl
  · exact fun s sendBuf _ hview conn => hview conn
  · exact fun s conn c _ _ _ hview conn' => hview conn'
  · intro s msg t hwf _ hmax hview hmsg conn
    obtain ⟨hgroup, hsubmitted⟩ := group_message hwf hmax hmsg
    rw [hsubmitted, hgroup, Multicast.Group.view_cast, hview]
    rfl
  · exact fun s codec hview conn => hview conn

/-! ## What the server does is a run of the multicast -/

/-- What happens to the group while the server handles the events `after`: the connections
that are accepted join, and only those leave whose streams end. -/
structure Performs (history after : List Event) (s t : Server)
    (changes : List (Change ConnPtr (List UInt8))) : Prop where
  group : t.group = s.group.run changes
  joins : joins changes =
    (List.range' (accepted history) (accepted after)).map ConnPtr.mk
  leaves : ∀ conn ∈ leaves changes, atEof after ⟨conn.addr⟩ = true

/-- Connections are counted event by event. -/
theorem accepted_append (first second : List Event) :
    accepted (first ++ second) = accepted first + accepted second :=
  List.countP_append

/-- A stream has ended if it ended at some event. -/
theorem atEof_append (first second : List Event) (h : Handle) :
    atEof (first ++ second) h = (atEof first h || atEof second h) :=
  List.any_append

/-- What the server does in two stretches of a run is one run of the group. -/
theorem Performs.trans {history first second : List Event} {s t u : Server}
    {changes changes' : List (Change ConnPtr (List UInt8))}
    (hfirst : Performs history first s t changes)
    (hsecond : Performs (history ++ first) second t u changes') :
    Performs history (first ++ second) s u (changes ++ changes') where
  group := by rw [hsecond.group, hfirst.group, Multicast.Group.run_append]
  joins := by
    rw [joins_append, hfirst.joins, hsecond.joins, ← List.map_append, accepted_append,
      List.range'_append_1, ← accepted_append]
  leaves := by
    intro conn hconn
    rw [leaves_append, List.mem_append] at hconn
    rw [atEof_append, Bool.or_eq_true]
    exact hconn.imp (hfirst.leaves conn) (hsecond.leaves conn)

/-- **What one event does.** -/
theorem exists_changes_of_step {history : List Event} {s t : Server} {event : Event}
    (h : Reaches history s) (henabled : s.Enabled event) (hstep : s.step event = .ok t) :
    ∃ changes, Performs history [event] s t changes := by
  have hwf : s.Wf := h.wf
  have hnum := h.numbered
  cases event with
  | connection status accepted sendBuf =>
      rcases onConnection_spec hstep with ⟨hstatus, rfl⟩ | ⟨hstatus, -, rfl⟩
      · refine ⟨[], rfl, ?_, fun conn hconn => absurd hconn List.not_mem_nil⟩
        simp [Server.accepted, Event.accepts, hstatus, Multicast.joins]
      · refine ⟨[.join ⟨s.allocated⟩], rfl, ?_, fun conn hconn => absurd hconn List.not_mem_nil⟩
        have hone : Server.accepted [.connection status accepted sendBuf] = 1 := by
          simp [Server.accepted, Event.accepts, hstatus]
        rw [hone, ← hnum.allocated]
        rfl
  | read hd nread base =>
      have hholds : s.codec.buffer.Holds s.codec.buffer.unread := ⟨hwf.codec, rfl⟩
      have hnone : accepted [.read hd nread base] = 0 := rfl
      rcases onRead_spec hwf hholds henabled hstep with
        ⟨-, rfl⟩ | ⟨rfl, conn, hconn, ⟨c, hc, rfl⟩, rfl⟩ | ⟨-, -, -, -, codec, u, -, hu, rfl⟩
      · exact ⟨[], rfl, by rw [hnone]; rfl, fun conn hconn => absurd hconn List.not_mem_nil⟩
      · refine ⟨[.leave conn], rfl, by rw [hnone]; rfl, ?_⟩
        intro conn' hconn'
        rw [List.mem_singleton.mp hconn', hnum.handle_eq hc]
        simp [atEof, Event.ends]
      · have hmax : ∀ msg ∈ (decoder.drain (fed s.codec.buffer.unread nread base)).1,
            msg.length ≤ maxLength := fun msg => Codec.length_le_of_mem_drain
        obtain ⟨hjoins, hleaves, -⟩ := Multicast.changes_map_cast (M := ConnPtr)
          (fronts s.encoded
            ((decoder.drain (fed s.codec.buffer.unread nread base)).1.map cString))
        have hgroup := group_deliverAll hwf hmax hu
        refine ⟨_, hgroup, by rw [hjoins, hnone]; rfl, ?_⟩
        intro conn hconn
        rw [hleaves] at hconn
        exact absurd hconn List.not_mem_nil

/-- **What the server does between two states is a run of the multicast.** -/
theorem exists_changes {history after : List Event} {s t : Server} (hs : Reaches history s)
    (ht : Reaches (history ++ after) t) : ∃ changes, Performs history after s t changes := by
  induction after using List.reverseRecOn generalizing t with
  | nil =>
      rw [List.append_nil] at ht
      obtain rfl := AbortingRun.ok_unique hs.run_eq_ok ht.run_eq_ok
      exact ⟨[], rfl, rfl, fun conn hconn => absurd hconn List.not_mem_nil⟩
  | append_singleton after event ih =>
      rw [← List.append_assoc] at ht
      obtain ⟨u, hu, henabled, hstep⟩ := AbortingRun.Reaches.of_concat ht
      obtain ⟨changes, hchanges⟩ := ih hu
      obtain ⟨changes', hlast⟩ := exists_changes_of_step hu henabled hstep
      exact ⟨changes ++ changes', hchanges.trans hlast⟩

/-- Who has not been accepted has not been sent anything. -/
theorem view_eq_nil {history : List Event} {s : Server} (h : Reaches history s)
    {conn : ConnPtr} (hnew : accepted history ≤ conn.addr) :
    conn ∉ s.conns ∧ s.group.view conn = [] := by
  have hstart : Reaches [] start := AbortingRun.Reaches.start
  obtain ⟨changes, hchanges⟩ := exists_changes hstart h
  have hjoin : conn ∉ joins changes := by
    rw [hchanges.joins]
    rintro hmem
    obtain ⟨addr, haddr, rfl⟩ := List.mem_map.mp hmem
    rw [List.mem_range'_1] at haddr
    have hzero : accepted [] = 0 := rfl
    simp only [hzero] at haddr hnew
    omega
  have hout := Multicast.Group.view_run_of_notMem (g := start.group)
    (List.not_mem_nil (a := conn)) hjoin
  rw [← hchanges.group] at hout
  exact hout

/-- **What a connection is sent**: nothing before it is accepted; then, as long as its
stream has not ended, the byte string of each message that is broadcast; and nothing
afterwards. -/
theorem submittedTo_of_reaches {history after : List Event} {s t : Server}
    (hs : Reaches history s) (ht : Reaches (history ++ after) t) (conn : ConnPtr) :
    (accepted history ≤ conn.addr → s.submittedTo conn = []) ∧
    (conn.addr < accepted history → atEof (history ++ after) ⟨conn.addr⟩ = false →
      t.submittedTo conn = s.submittedTo conn ++ (wire t.delivered).drop s.delivered.length) ∧
    (atEof history ⟨conn.addr⟩ = true → t.submittedTo conn = s.submittedTo conn) := by
  obtain ⟨changes, hchanges⟩ := exists_changes hs ht
  have hnum := hs.numbered
  rw [submittedTo_eq_view hs, submittedTo_eq_view ht, hchanges.group]
  refine ⟨fun hnew => (view_eq_nil hs hnew).2, fun hold hlive => ?_, fun hended => ?_⟩
  · rw [atEof_append, Bool.or_eq_false_iff] at hlive
    have hmem : conn ∈ s.group.members := by
      show conn ∈ s.conns
      rw [hnum.conns]
      exact mem_table.mpr ⟨hold, hlive.1⟩
    have hstays : conn ∉ leaves changes := by
      intro hleaves
      rw [hchanges.leaves conn hleaves] at hlive
      exact absurd hlive.2 (by decide)
    have hvalues : wire t.delivered = wire s.delivered ++ casts changes := by
      rw [← values_group, hchanges.group, Multicast.Group.values_run, values_group]
    rw [(Multicast.Group.view_run_of_mem hmem hstays).2, hvalues,
      List.drop_left' (length_wire _)]
  · have hout : conn ∉ s.group.members := by
      show conn ∉ s.conns
      rw [hnum.conns]
      intro hmem
      rw [(mem_table.mp hmem).2] at hended
      cases hended
    have hjoin : conn ∉ joins changes := by
      rw [hchanges.joins]
      intro hmem
      obtain ⟨addr, haddr, rfl⟩ := List.mem_map.mp hmem
      rw [List.mem_range'_1] at haddr
      have hlt : addr < s.allocated := hnum.ended _ hended
      rw [hnum.allocated] at hlt
      omega
    exact (Multicast.Group.view_run_of_notMem hout hjoin).2

theorem submittedTo_of_reaches_twoMessages : ∃ t, Reaches twoMessages t ∧
    ((accepted [.connection 0 0 zeroBuf] ≤ 0 → oneConn.submittedTo ⟨0⟩ = []) ∧
    (0 < accepted [.connection 0 0 zeroBuf] → atEof twoMessages ⟨0⟩ = false →
      t.submittedTo ⟨0⟩ =
        oneConn.submittedTo ⟨0⟩ ++ (wire t.delivered).drop oneConn.delivered.length) ∧
    (atEof [.connection 0 0 zeroBuf] ⟨0⟩ = true →
      t.submittedTo ⟨0⟩ = oneConn.submittedTo ⟨0⟩)) := by
  obtain ⟨t, ht, -⟩ := exists_twoMessages
  exact ⟨t, ht, submittedTo_of_reaches reaches_oneConn ht ⟨0⟩⟩

/-- **The connections agree on the order**: each was sent a part of one sequence of byte
strings, without gaps; a connection that is there has been sent its end, and of two such
connections the later one the end of what the earlier one was sent. -/
theorem agreement {history : List Event} {s : Server} (h : Reaches history s) :
    (∀ conn, s.submittedTo conn <:+: wire s.delivered) ∧
    (∀ conn ∈ s.conns, s.submittedTo conn <:+ wire s.delivered) ∧
    s.conns.Pairwise fun conn conn' => s.submittedTo conn' <:+ s.submittedTo conn := by
  have hstart : Reaches [] start := AbortingRun.Reaches.start
  obtain ⟨changes, hchanges⟩ := exists_changes hstart h
  have honce : (joins changes).Nodup := by
    rw [hchanges.joins]
    refine List.Nodup.map ?_ (List.nodup_range' ..)
    exact fun addr addr' heq => congrArg ConnPtr.addr heq
  have hordered : s.group.Ordered := by
    rw [hchanges.group]
    exact Multicast.Group.ordered_empty.run honce
      fun conn _ => ⟨List.not_mem_nil, rfl⟩
  simp only [submittedTo_eq_view h, ← values_group]
  exact ⟨hordered.seen, hordered.members, hordered.later⟩

theorem agreement_twoMessages : ∃ s, Reaches twoMessages s ∧
    ((∀ conn, s.submittedTo conn <:+: wire s.delivered) ∧
    (∀ conn ∈ s.conns, s.submittedTo conn <:+ wire s.delivered) ∧
    s.conns.Pairwise fun conn conn' => s.submittedTo conn' <:+ s.submittedTo conn) := by
  obtain ⟨s, hs, -⟩ := exists_twoMessages
  exact ⟨s, hs, agreement hs⟩

end Server

end LearnUv
