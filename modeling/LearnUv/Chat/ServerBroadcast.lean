import LearnUv.Chat.ServerTable

/-!
# What the chat server broadcasts

`onStringMessageBack` encodes a message into the global `buf` and sends, from the front
of `buf`, as many bytes as the frame has.  Nothing ever retrieves from `buf`, so what is
sent is the front of everything that was ever encoded.

The invariant of a run is that `buf` holds the frames of all messages so far, one behind the
other.  The first message of a run is therefore sent as its frame, and a later one as as many
bytes of the same byte string as its own frame has.  These bytes start with the header of the
first message, so they are the frame of the later one only if its length is that of the first,
and then only if it is the same message; this is `broadcast_correct_iff`, and it needs no
induction beyond the one for the invariant (`LogSound`).

## Main Definitions

* `Broadcast.SentFrom` — every connection was sent the same bytes
* `Broadcast.Correct` — every connection was sent the frame of the message

## Main Results

* `logSound_of_reaches` — what each broadcast of a run sent
* `broadcast_correct_iff` — a broadcast is correct exactly when its message is the first
  message of the run
-/

namespace LearnUv

open Codec (frame frames length_frame maxLength)

/-! ## What is sent -/

namespace Broadcast

/-- Every connection there was at the broadcast was sent `bytes`, exactly once and to
its own handle. -/
structure SentFrom (b : Broadcast) (s : Server) (bytes : List UInt8) : Prop where
  nodup : b.conns.Nodup
  writes : b.writes.map (fun w => (w.conn, w.bytes)) = b.conns.map fun conn => (conn, bytes)
  /-- The handle is that of the connection, for as long as the connection exists. -/
  handles : ∀ w ∈ b.writes, w.conn.addr < s.allocated ∧
    ∀ c, s.heap w.conn = some c → w.handle = c.handle_

/-- Every connection was sent the frame of the message. -/
def Correct (b : Broadcast) (s : Server) : Prop := b.SentFrom s (frame b.msg)

/-- Addresses are given out once, and a connection keeps its handle: what was sent to
the handle of a connection stays so. -/
theorem SentFrom.of_later {s t : Server} {b : Broadcast} {bytes : List UInt8}
    (h : b.SentFrom s bytes) (hallocated : s.allocated ≤ t.allocated)
    (hheap : ∀ conn c, conn.addr < s.allocated → t.heap conn = some c →
      ∃ c', s.heap conn = some c' ∧ c'.handle_ = c.handle_) : b.SentFrom t bytes where
  nodup := h.nodup
  writes := h.writes
  handles := by
    intro w hw
    obtain ⟨hlt, hhandle⟩ := h.handles w hw
    refine ⟨hlt.trans_le hallocated, ?_⟩
    intro c hc
    obtain ⟨c', hc', heq⟩ := hheap w.conn c hlt hc
    rw [hhandle c' hc', heq]

/-- A broadcast that had connections to go to, had a message of at most
`kMaxMessageSize`, and sent the front of what had been encoded by then. -/
structure Sound (b : Broadcast) (s : Server) (before : List Broadcast) : Prop where
  conns_ne_nil : b.conns ≠ []
  length_le : b.msg.length ≤ maxLength
  sent : b.SentFrom s ((frames ((before ++ [b]).map fun b => cString b.msg)).take
    (frame (cString b.msg)).length)

/-- Bytes sent to at least one connection are determined. -/
theorem SentFrom.eq_of_ne_nil {s : Server} {b : Broadcast} {bytes bytes' : List UInt8}
    (h : b.SentFrom s bytes) (h' : b.SentFrom s bytes') (hconns : b.conns ≠ []) :
    bytes = bytes' := by
  have heq := h.writes.symm.trans h'.writes
  obtain ⟨conn, conns, hcons⟩ := List.exists_cons_of_ne_nil hconns
  rw [hcons, List.map_cons, List.map_cons] at heq
  exact congrArg Prod.snd (List.cons.inj heq).1

end Broadcast

namespace Server

/-- Every broadcast of the log is sound. -/
def LogSound (s : Server) : Prop :=
  ∀ before b after, s.broadcasts = before ++ b :: after → b.Sound s before

/-- The log of a later state, when nothing was broadcast in between. -/
theorem LogSound.of_later {s t : Server} (h : LogSound s)
    (hlog : t.broadcasts = s.broadcasts) (hallocated : s.allocated ≤ t.allocated)
    (hheap : ∀ conn c, conn.addr < s.allocated → t.heap conn = some c →
      ∃ c', s.heap conn = some c' ∧ c'.handle_ = c.handle_) : LogSound t := by
  intro before b after hsplit
  rw [hlog] at hsplit
  obtain ⟨hconns, hmax, hsent⟩ := h before b after hsplit
  exact ⟨hconns, hmax, hsent.of_later hallocated hheap⟩

/-- The log of the state after a broadcast. -/
theorem LogSound.concat {s t : Server} (h : LogSound s) {new : Broadcast}
    (hlog : t.broadcasts = s.broadcasts ++ [new]) (hnew : new.Sound t s.broadcasts)
    (hallocated : s.allocated ≤ t.allocated)
    (hheap : ∀ conn c, conn.addr < s.allocated → t.heap conn = some c →
      ∃ c', s.heap conn = some c' ∧ c'.handle_ = c.handle_) : LogSound t := by
  intro before b after hsplit
  rw [hlog] at hsplit
  rcases List.eq_nil_or_concat after with rfl | ⟨earlier, last, rfl⟩
  · obtain ⟨rfl, hb⟩ := List.append_inj' hsplit rfl
    cases hb
    exact hnew
  · have hsplit' : s.broadcasts ++ [new] = (before ++ b :: earlier) ++ [last] := by
      rw [hsplit, List.concat_eq_append, List.append_assoc, List.cons_append]
    obtain ⟨hbefore, -⟩ := List.append_inj' hsplit' rfl
    obtain ⟨hconns, hmax, hsent⟩ := h before b earlier hbefore
    exact ⟨hconns, hmax, hsent.of_later hallocated hheap⟩

/-- The step of the log invariant. -/
theorem LogSound.onStringMessageBack {s t : Server} (h : LogSound s) (hwf : s.Wf)
    (hconns : s.conns ≠ []) {msg : List UInt8} (hmax : msg.length ≤ maxLength)
    (hmsg : onStringMessageBack msg s = .ok t) : LogSound t := by
  obtain ⟨hsame, -, writes, hlog, hwrites, hhandles⟩ :=
    onStringMessageBack_eq_ok hwf hmax hmsg
  have hheap : ∀ conn c, conn.addr < s.allocated → t.heap conn = some c →
      ∃ c', s.heap conn = some c' ∧ c'.handle_ = c.handle_ := by
    intro conn c _ hc
    exact hsame.symm.heap_eq_some hc
  refine h.concat hlog ⟨hconns, hmax, hwf.nodup, ?_, ?_⟩ hsame.allocated.ge hheap
  · rw [List.map_append]
    exact hwrites
  · intro w hw
    obtain ⟨c, hc, hhandle⟩ := Option.map_eq_some_iff.mp (hhandles w hw)
    refine ⟨hsame.allocated.symm ▸ hwf.addr_lt hc, ?_⟩
    intro c' hc'
    obtain ⟨c₀, hc₀, heq⟩ := hsame.symm.heap_eq_some hc'
    rw [hc] at hc₀
    cases hc₀
    exact hhandle.symm.trans heq

/-- **What every broadcast of a run sent.** -/
theorem logSound_of_reaches {history : List Event} {s : Server} (h : Reaches history s) :
    LogSound s := by
  refine (h.induction (P := LogSound) ?_ ?_ ?_ ?_ ?_).2
  · intro before b after hsplit
    exact absurd hsplit (by simp [start])
  · intro s sendBuf _ hlog
    refine hlog.of_later rfl (Nat.le_succ _) ?_
    intro conn c hlt hc
    have hne : conn ≠ ⟨s.allocated⟩ := by
      rintro rfl
      exact Nat.lt_irrefl _ hlt
    change Function.update _ _ _ conn = _ at hc
    rw [Function.update_of_ne hne] at hc
    exact ⟨c, hc, rfl⟩
  · intro s conn c _ _ _ hlog
    refine hlog.of_later rfl le_rfl ?_
    intro conn' c' _ hc'
    change Function.update _ _ _ conn' = _ at hc'
    by_cases hconn : conn' = conn
    · subst hconn
      rw [Function.update_self] at hc'
      cases hc'
    · rw [Function.update_of_ne hconn] at hc'
      exact ⟨c', hc', rfl⟩
  · intro s msg t hwf hconns hmax hlog hmsg
    exact hlog.onStringMessageBack hwf hconns hmax hmsg
  · intro s codec hlog
    exact hlog.of_later rfl le_rfl fun _ c _ hc => ⟨c, hc, rfl⟩

/-! ## When it is correct -/

/-- **A broadcast is correct exactly when its message is the first message of the run**:
the first in the log, up to its first NUL, which is what was encoded of it.  For every
broadcast in the log of a reachable state, whose message has no NUL. -/
theorem broadcast_correct_iff {history : List Event} {s : Server}
    (hreach : Reaches history s) {before after : List Broadcast} {b : Broadcast}
    (hlog : s.broadcasts = before ++ b :: after) (hnul : 0 ∉ b.msg) :
    b.Correct s ↔ ∀ first, s.broadcasts.head? = some first → cString first.msg = b.msg := by
  obtain ⟨hconns, hmax, hsent⟩ := logSound_of_reaches hreach before b after hlog
  have hmsg : cString b.msg = b.msg := cString_of_notMem hnul
  obtain ⟨first, later, hfirst⟩ : ∃ first later, before ++ [b] = first :: later :=
    List.exists_cons_of_ne_nil (by simp)
  have hhead : s.broadcasts.head? = some first := by
    have hsplit : s.broadcasts = (before ++ [b]) ++ after := by
      rw [hlog, List.append_assoc, List.singleton_append]
    rw [hsplit, hfirst]
    rfl
  have hlengths : (cString first.msg).length < 2 ^ 32 ∧ b.msg.length < 2 ^ 32 := by
    have hfirstmax : first.msg.length ≤ maxLength := by
      obtain ⟨rest, hrest⟩ : ∃ rest, s.broadcasts = [] ++ first :: rest :=
        ⟨s.broadcasts.tail, (List.cons_head?_tail hhead).symm⟩
      exact (logSound_of_reaches hreach [] first rest hrest).length_le
    have hle := length_cString_le first.msg
    unfold maxLength at hmax hfirstmax
    omega
  rw [hmsg, hfirst, List.map_cons] at hsent
  have hiff : (frames (cString first.msg :: later.map fun b => cString b.msg)).take
      (frame b.msg).length = frame b.msg ↔ cString first.msg = b.msg :=
    Codec.take_frames_eq_frame_iff hlengths.1 hlengths.2
  constructor
  · intro hcorrect first' hfirst'
    rw [hhead] at hfirst'
    cases hfirst'
    exact hiff.mp (hsent.eq_of_ne_nil hcorrect hconns)
  · intro hsame
    rw [hiff.mpr (hsame first hhead)] at hsent
    exact hsent

/-- A connection that sends the frames of `[7]` and of `[8]` in one read. -/
def twoMessages : List Event :=
  [.connection 0 0 zeroBuf, .read ⟨0⟩ 10 [0, 0, 0, 1, 7, 0, 0, 0, 1, 8]]

/-- The broadcasts of the two messages. -/
def twoBroadcasts : List Broadcast :=
  [⟨[7], [⟨0⟩], [⟨⟨0⟩, ⟨0⟩, [0, 0, 0, 1, 7]⟩]⟩, ⟨[8], [⟨0⟩], [⟨⟨0⟩, ⟨0⟩, [0, 0, 0, 1, 7]⟩]⟩]

theorem exists_twoMessages :
    ∃ s, Reaches twoMessages s ∧ s.broadcasts = twoBroadcasts := by
  have hlog : (runEvents twoMessages).map Server.broadcasts = some twoBroadcasts := by
    decide +kernel
  obtain ⟨s, hrun, hbroadcasts⟩ := Option.map_eq_some_iff.mp hlog
  exact ⟨s, reaches_of_runEvents hrun, hbroadcasts⟩

theorem broadcast_correct_iff_twoMessages : ∃ s before b after,
    Reaches twoMessages s ∧ s.broadcasts = before ++ b :: after ∧
      (b.Correct s ↔
        ∀ first, s.broadcasts.head? = some first → cString first.msg = b.msg) := by
  obtain ⟨s, hreach, hlog⟩ := exists_twoMessages
  exact ⟨s, [], _, _, hreach, hlog, @broadcast_correct_iff _ s hreach [] _ _ hlog (by decide)⟩

/-- The second of two messages is sent as the frame of the first one. -/
theorem not_correct_twoMessages : ∃ s before b,
    Reaches twoMessages s ∧ s.broadcasts = before ++ [b] ∧ 0 ∉ b.msg ∧ ¬b.Correct s := by
  obtain ⟨s, hreach, hlog⟩ := exists_twoMessages
  refine ⟨s, [_], _, hreach, hlog, by decide, ?_⟩
  intro hcorrect
  exact absurd hcorrect.writes (by decide)

end Server

end LearnUv
