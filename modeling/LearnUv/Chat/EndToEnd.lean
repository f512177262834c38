import LearnUv.Chat.Agreement
import LearnUv.Chat.ClientSession
import LearnUv.Chat.CodecStream
import LearnUv.Chat.Relaying

/-!
# From the chat server to the chat client

A connection of the server and the client at its other end: the client reads what was
submitted to the connection, in any pieces, and prints what its codec makes of it.  Since
the server sends each message as the front of everything it ever encoded, that need not be
what was broadcast.

A connection is sent one byte string for each message that was broadcast while it was there,
and each is as long as the frame of its message, cut from the front of everything that was
encoded (`SentAs`).  So the stream has the length of the stream of frames, and it is that
stream exactly if it is in each part.  The decoder of the client is then compared with the
frames it would have to find, and the last of them needs a byte behind it if it is empty.

## Main Definitions

* `messagesFor` — the messages that were broadcast while a connection was there
* `SentAs` — what the server makes of a message

## Main Results

* `printed_eq_iff` — a client that has read all it was sent has printed the messages that
  were broadcast, exactly when each of them is the first message of the server
-/

namespace LearnUv

open Codec (frame frames frames_cons length_frame decoder maxLength Stuck)

namespace Codec

/-- If C strings are as long as the strings they are taken from, they are these. -/
theorem map_cString_eq_of_length_le {msgs : List (List UInt8)}
    (h : (frames msgs).length ≤ (frames (msgs.map cString)).length) :
    msgs.map cString = msgs := by
  induction msgs with
  | nil => rfl
  | cons msg msgs ih =>
      have hle := length_cString_le msg
      have hrest := length_frames_map_cString_le msgs
      rw [List.map_cons, frames_cons, frames_cons, List.length_append, List.length_append,
        length_frame, length_frame] at h
      have hmsg : cString msg = msg := by
        rw [← take_length_cString, List.take_of_length_le (by omega)]
      rw [List.map_cons, hmsg, ih (by omega)]

/-- The frame of an empty message is not taken off when nothing follows it. -/
theorem getLast?_ne_nil_of_drain_frames {msgs : List (List UInt8)}
    (hmax : ∀ msg ∈ msgs, msg.length ≤ maxLength)
    (h : (decoder.drain (frames msgs)).1 = msgs) : msgs.getLast? ≠ some [] := by
  intro hlast
  obtain ⟨before, rfl⟩ := List.getLast?_eq_some_iff.mp hlast
  have hstuck : Stuck (frame []) := Or.inl (by rw [length_frame]; rfl)
  have hne : frame [] ≠ [] := by
    apply List.ne_nil_of_length_pos
    rw [length_frame]
    omega
  rw [frames_append, frames_cons, frames_nil, List.append_nil,
    drain_frames (fun msg hmsg => hmax msg (List.mem_append_left _ hmsg)) hstuck
      (Or.inl hne)] at h
  exact absurd (congrArg List.length h) (by simp)

/-- A stream that is as long as the frames of the messages it yields is these frames. -/
theorem eq_frames_of_drain {xs : List UInt8} {msgs : List (List UInt8)}
    (hlength : xs.length = (frames msgs).length)
    (h : (decoder.drain xs).1.map cString = msgs) :
    xs = frames msgs ∧ msgs.getLast? ≠ some [] := by
  have hmax : ∀ msg ∈ (decoder.drain xs).1, msg.length ≤ maxLength :=
    fun msg => length_le_of_mem_drain
  have hconserved := IncrementalDecoder.flatten_drain decoder_recognises xs
  -- nothing is left over, and nothing that was decoded has a NUL
  have hle := length_frames_map_cString_le (decoder.drain xs).1
  have htotal := congrArg List.length hconserved
  rw [List.length_append, hlength, ← h] at htotal
  change (frames _).length + _ = _ at htotal
  have hdecoded : (decoder.drain xs).1.map cString = (decoder.drain xs).1 :=
    map_cString_eq_of_length_le (by omega)
  have hrest : (decoder.drain xs).2 = [] := List.length_eq_zero_iff.mp (by omega)
  rw [hdecoded] at h
  rw [hrest, List.append_nil, h] at hconserved
  rw [h] at hmax
  refine ⟨hconserved.symm, getLast?_ne_nil_of_drain_frames hmax ?_⟩
  change frames _ = _ at hconserved
  rw [hconserved, h]

/-- Frames yield their messages, when the last one is not empty. -/
theorem drain_frames_of_getLast? {msgs : List (List UInt8)}
    (hmax : ∀ msg ∈ msgs, msg.length ≤ maxLength) (hlast : msgs.getLast? ≠ some []) :
    decoder.drain (frames msgs) = (msgs, []) := by
  have hdrain := drain_frames hmax (Or.inl (Nat.zero_le _) : Stuck []) (Or.inr hlast)
  rwa [List.append_nil] at hdrain

/-- C strings have no NUL. -/
theorem map_cString_map_cString (msgs : List (List UInt8)) :
    (msgs.map cString).map cString = msgs.map cString := by
  rw [List.map_map]
  refine List.map_congr_left ?_
  intro msg _
  exact cString_of_notMem (notMem_cString msg)

end Codec

namespace Server

/-- The messages that were broadcast while the connection was there. -/
def messagesFor (s : Server) (conn : ConnPtr) : List (List UInt8) :=
  (s.broadcasts.filter fun b => conn ∈ b.conns).map Broadcast.msg

/-- What the server makes of a message: as many bytes as its frame has, of something that
begins with the frame of the first message. -/
structure SentAs (delivered : List (List UInt8)) (bytes msg : List UInt8) : Prop where
  short : msg.length ≤ maxLength
  front : ∃ first later, delivered.head? = some first ∧ first.length ≤ maxLength ∧
    (frame (cString msg)).length ≤ (frames (cString first :: later)).length ∧
    bytes = (frames (cString first :: later)).take (frame (cString msg)).length

namespace SentAs

variable {delivered : List (List UInt8)} {bytes msg : List UInt8}

theorem append (h : SentAs delivered bytes msg) (more : List (List UInt8)) :
    SentAs (delivered ++ more) bytes msg where
  short := h.short
  front := by
    obtain ⟨first, later, hfirst, hrest⟩ := h.front
    refine ⟨first, later, ?_, hrest⟩
    rw [List.head?_append, hfirst]
    rfl

theorem length_eq (h : SentAs delivered bytes msg) :
    bytes.length = (frame (cString msg)).length := by
  obtain ⟨first, later, -, -, hlong, rfl⟩ := h.front
  exact List.length_take_of_le hlong

/-- It is the frame of the message exactly when the message is the first one again. -/
theorem eq_frame_iff (h : SentAs delivered bytes msg) :
    bytes = frame (cString msg) ↔
      ∀ first, delivered.head? = some first → cString first = cString msg := by
  obtain ⟨first, later, hfirst, hmax, -, rfl⟩ := h.front
  have hshort := h.short
  have hle := length_cString_le msg
  have hle' := length_cString_le first
  unfold maxLength at hmax hshort
  rw [Codec.take_frames_eq_frame_iff (by omega) (by omega)]
  constructor
  · intro hsame first' hfirst'
    rw [hfirst] at hfirst'
    cases hfirst'
    exact hsame
  · exact fun hall => hall first hfirst

end SentAs

/-- **What a connection was sent**, message by message. -/
theorem sentAs_of_reaches {history : List Event} {s : Server} (h : Reaches history s) :
    ∀ conn, List.Forall₂ (SentAs s.delivered) (s.submittedTo conn) (s.messagesFor conn) := by
  suffices hall : (∀ msg ∈ s.delivered, msg.length ≤ maxLength) ∧ ∀ conn,
      List.Forall₂ (SentAs s.delivered) (s.submittedTo conn) (s.messagesFor conn) from hall.2
  refine (h.induction (P := fun s => (∀ msg ∈ s.delivered, msg.length ≤ maxLength) ∧ ∀ conn,
    List.Forall₂ (SentAs s.delivered) (s.submittedTo conn) (s.messagesFor conn))
    ?_ ?_ ?_ ?_ ?_).2
  · exact ⟨fun msg hmsg => absurd hmsg List.not_mem_nil, fun conn => List.Forall₂.nil⟩
  · exact fun s sendBuf _ hsent => hsent
  · exact fun s conn c _ _ _ hsent => hsent
  · rintro s msg t hwf - hshort ⟨hall, hsent⟩ hmsg
    obtain ⟨-, hsubmitted⟩ := group_message hwf hshort hmsg
    obtain ⟨-, -, writes, hlog, -, -⟩ := onStringMessageBack_eq_ok hwf hshort hmsg
    have hdelivered := delivered_of_onStringMessageBack hwf hshort hmsg
    have hmax : ∀ m ∈ t.delivered, m.length ≤ maxLength := by
      rw [hdelivered]
      intro m hm
      rcases List.mem_append.mp hm with hold | hnew
      · exact hall m hold
      · rw [List.mem_singleton.mp hnew]
        exact hshort
    refine ⟨hmax, fun conn => ?_⟩
    have hmessages : t.messagesFor conn =
        s.messagesFor conn ++ if conn ∈ s.conns then [msg] else [] := by
      by_cases hconn : conn ∈ s.conns <;> simp [messagesFor, hlog, hconn]
    have hold := (hsent conn).imp fun _ _ hb => hb.append [msg]
    rw [hsubmitted, hmessages, hdelivered]
    by_cases hconn : conn ∈ s.conns
    · rw [if_pos hconn, if_pos hconn]
      refine List.rel_append hold (List.Forall₂.cons ⟨hshort, ?_⟩ List.Forall₂.nil)
      obtain ⟨first, later, hfirst⟩ : ∃ first later, s.delivered ++ [msg] = first :: later :=
        List.exists_cons_of_ne_nil (by simp)
      have hencoded : s.encoded ++ [cString msg] = cString first :: later.map cString := by
        rw [encoded_eq, ← List.map_cons, ← hfirst, List.map_append]
        rfl
      rw [hencoded]
      refine ⟨first, later.map cString, by rw [hfirst]; rfl, ?_, ?_, rfl⟩
      · exact hmax first (by rw [hdelivered, hfirst]; exact List.mem_cons_self)
      · rw [← hencoded, Codec.frames_append, frames_cons, Codec.frames_nil, List.append_nil,
          List.length_append]
        exact Nat.le_add_left _ _
    · rw [if_neg hconn, if_neg hconn, List.append_nil, List.append_nil]
      exact hold
  · exact fun s codec hsent => hsent

/-- All that was sent together has the length of the frames, and is the frames exactly when
each message is the first one again. -/
theorem flatten_eq_frames_iff {delivered subs msgs : List (List UInt8)}
    (h : List.Forall₂ (SentAs delivered) subs msgs) :
    subs.flatten.length = (frames (msgs.map cString)).length ∧
      (subs.flatten = frames (msgs.map cString) ↔
        ∀ msg ∈ msgs, ∀ first, delivered.head? = some first → cString first = cString msg) := by
  induction h with
  | nil => exact ⟨rfl, iff_of_true rfl (List.forall_mem_nil _)⟩
  | @cons bytes msg subs msgs hsent hrest ih =>
      obtain ⟨hlength, hframes⟩ := ih
      rw [List.flatten_cons, List.map_cons, frames_cons, List.length_append,
        List.length_append, hsent.length_eq, hlength, List.forall_mem_cons,
        ← hsent.eq_frame_iff, ← hframes]
      refine ⟨rfl, ?_, ?_⟩
      · exact fun heq => List.append_inj heq hsent.length_eq
      · rintro ⟨hfirst, hothers⟩
        rw [hfirst, hothers]

theorem length_le_of_sentAs {delivered subs msgs : List (List UInt8)}
    (h : List.Forall₂ (SentAs delivered) subs msgs) :
    ∀ msg ∈ msgs.map cString, msg.length ≤ maxLength := by
  induction h with
  | nil => exact List.forall_mem_nil _
  | cons hsent hrest ih =>
      rw [List.map_cons, List.forall_mem_cons]
      exact ⟨(length_cString_le _).trans hsent.short, ih⟩

end Server

open Client (Session)

/-- **A client that has read all it was sent has printed the messages that were broadcast
to it, up to their NULs, exactly when each of them is the first message of the server and
the last one is not empty.**  For every run of the server, every connection of it, and every
session of the client at its other end, however the stream is cut. -/
theorem printed_eq_iff {history : List Server.Event} {s : Server}
    (hs : Server.Reaches history s) (conn : ConnPtr) {events : List Session.Event}
    {c : Session} (hc : Session.Reaches events c)
    (hstream : Session.tcpStream events = (s.submittedTo conn).flatten) :
    c.printed = (s.messagesFor conn).map cString ↔
      (∀ msg ∈ s.messagesFor conn, ∀ first, s.delivered.head? = some first →
        cString first = cString msg) ∧
      ((s.messagesFor conn).map cString).getLast? ≠ some [] := by
  have hsent := Server.sentAs_of_reaches hs conn
  obtain ⟨hlength, hframes⟩ := Server.flatten_eq_frames_iff hsent
  have hmax := Server.length_le_of_sentAs hsent
  have hprinted := hc.running.relays.printed
  rw [hstream] at hprinted
  rw [hprinted, ← hframes]
  constructor
  · exact fun hsame => Codec.eq_frames_of_drain hlength hsame
  · rintro ⟨hwhole, hlast⟩
    rw [hwhole, Codec.drain_frames_of_getLast? hmax hlast, Codec.map_cString_map_cString]

/-- The client reads the two frames in two pieces. -/
def twoReads : List Session.Event :=
  [.connected 0 0 0 0, .readTcp 3 [0, 0, 0], .readTcp 7 [1, 7, 0, 0, 0, 1, 7]]

/-- After the broadcasts of `[7]` and of `[8]`, it has printed `[7]` twice. -/
theorem printed_eq_iff_twoReads : ∃ s c, Server.Reaches Server.twoMessages s ∧
    Session.Reaches twoReads c ∧
      (c.printed = (s.messagesFor ⟨0⟩).map cString ↔
        (∀ msg ∈ s.messagesFor ⟨0⟩, ∀ first, s.delivered.head? = some first →
          cString first = cString msg) ∧
        ((s.messagesFor ⟨0⟩).map cString).getLast? ≠ some []) := by
  obtain ⟨s, hs, hlog⟩ := Server.exists_twoMessages
  obtain ⟨c, hc⟩ := Option.isSome_iff_exists.mp
    (show (Session.runEvents twoReads).isSome = true by decide +kernel)
  have hc := Session.reaches_of_runEvents hc
  refine ⟨s, c, hs, hc, printed_eq_iff hs ⟨0⟩ hc ?_⟩
  rw [Server.submittedTo, hlog]
  decide

end LearnUv
