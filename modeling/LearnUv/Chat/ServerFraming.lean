import LearnUv.Chat.CodecStream
import LearnUv.Chat.ServerTable
import LearnUv.Library.SharedDecoder

/-!
# Framing in the chat server

The server has one `Codec` for all its connections, so what it decodes is the stream of
all reads in the order in which they came.  (A client, which has one connection, has a
codec of its own.)  As long as every read comes when the other connections have sent
whole frames, that is an interleaving of what each connection sent.

A read that fails is an exception.  Its negative `nread` goes through `append` like a length,
and if the callback returns, the codec has lost the bytes that came last.

## Main Definitions

* `received` — what a connection sent
* `Unfailing` — no read fails other than at the end of a stream
* `Decodes` — what the server decoded between two states
* `WholeFrames` — every read comes while the other connections have sent whole frames

## Main Results

* `decodes_of_later` — the server decodes everything it receives as one stream
* `takesBack_of_failed` — what a failed read does to that stream
* `delivered_interleaves` — connections that send whole frames at a time do not disturb
  each other
-/

namespace LearnUv

open Codec (frames maxLength decoder Stuck)
open IncrementalDecoder (sent sentBy sent_concat sent_nil Undisturbed)

namespace Server

/-! ## What the server decodes -/

/-- The bytes an event brings, with the handle they came from. -/
def Event.chunk : Event → Option (Handle × List UInt8)
  | .connection _ _ _ => none
  | .read h nread base => if 0 < nread then some (h, base.take nread.toInt.toNat) else none

/-- The bytes of a history, in the order of arrival. -/
def chunks (history : List Event) : List (Handle × List UInt8) :=
  history.filterMap Event.chunk

/-- What the handle `h` sent. -/
def received (h : Handle) (history : List Event) : List UInt8 := sentBy h (chunks history)

theorem chunks_concat_none {event : Event} (h : event.chunk = none) (history : List Event) :
    chunks (history ++ [event]) = chunks history := by
  rw [chunks, List.filterMap_append, List.filterMap_cons_none h, List.filterMap_nil,
    List.append_nil]
  rfl

theorem chunks_concat_some {event : Event} {chunk : Handle × List UInt8}
    (h : event.chunk = some chunk) (history : List Event) :
    chunks (history ++ [event]) = chunks history ++ [chunk] := by
  rw [chunks, List.filterMap_append, List.filterMap_cons_some h, List.filterMap_nil]
  rfl

/-- A read fails, and not because the stream has ended. -/
def Event.Fails : Event → Prop
  | .connection _ _ _ => False
  | .read _ nread _ => nread < 0 ∧ nread ≠ uvEof

instance decidableFails : (event : Event) → Decidable event.Fails
  | .connection _ _ _ => inferInstanceAs (Decidable False)
  | .read _ _ _ => inferInstanceAs (Decidable (_ ∧ _))

/-- No read fails other than at the end of a stream. -/
def Unfailing (history : List Event) : Prop := ∀ event ∈ history, ¬event.Fails

instance decidableUnfailing (history : List Event) : Decidable (Unfailing history) :=
  inferInstanceAs (Decidable (∀ event ∈ history, ¬event.Fails))

theorem unfailing_concat {history : List Event} {event : Event} :
    Unfailing (history ++ [event]) ↔ Unfailing history ∧ ¬event.Fails := by
  simp only [Unfailing, List.forall_mem_append, List.forall_mem_singleton]

/-- Between every two iterations of the loop of libuv the codec has taken off all complete
messages. -/
theorem Reaches.stuck {history : List Event} {s : Server} (h : Reaches history s) :
    Stuck s.codec.buffer.unread := by
  induction h with
  | start => exact Or.inl (Nat.zero_le 4)
  | @event history s t event before henabled hstep ih =>
      have hwf : s.Wf := Reaches.wf before
      cases event with
      | connection status accepted sendBuf =>
          rcases onConnection_spec hstep with ⟨-, rfl⟩ | ⟨-, -, rfl⟩
          · exact ih
          · exact ih
      | read hd nread base =>
          rcases onRead_spec hwf ⟨hwf.codec, rfl⟩ henabled hstep with
            ⟨-, rfl⟩ | ⟨-, conn, -, -, rfl⟩ | ⟨-, -, -, -, codec, u, hcodec, -, rfl⟩
          · exact ih
          · exact ih
          · show Stuck codec.buffer.unread
            rw [hcodec.unread_eq]
            exact Codec.stuck_drain _

/-- From the state `s` to the state `t` the server has decoded `xs`, behind the bytes that
its codec had kept. -/
structure Decodes (s t : Server) (xs : List UInt8) : Prop where
  holds : t.codec.buffer.Holds (decoder.drain (s.codec.buffer.unread ++ xs)).2
  delivered : t.delivered = s.delivered ++ (decoder.drain (s.codec.buffer.unread ++ xs)).1

/-- At first it has decoded nothing. -/
theorem Decodes.refl {history : List Event} {s : Server} (h : Reaches history s) :
    Decodes s s [] := by
  have hdrain := IncrementalDecoder.drain_of_none (D := decoder)
    (Codec.nextMessage_eq_none.mpr h.stuck)
  rw [← List.append_nil s.codec.buffer.unread] at hdrain
  constructor
  · rw [hdrain, List.append_nil]
    exact ⟨h.wf.codec, rfl⟩
  · rw [hdrain, List.append_nil]

/-- A read with data goes on with the stream. -/
theorem Decodes.read {s t u : Server} {xs : List UInt8} (hwf : t.Wf) (h : Decodes s t xs)
    {hd : Handle} {nread : Int64} {base : List UInt8} (hpos : 0 < nread)
    (henabled : Enabled t (.read hd nread base)) (hstep : t.onRead hd nread base = .ok u) :
    Decodes s u (xs ++ base.take nread.toInt.toNat) := by
  have hneg : nread ≠ uvEof := by
    rintro rfl
    exact absurd hpos (by decide)
  have hzero : nread ≠ 0 := by
    rintro rfl
    exact absurd hpos (by decide)
  rcases onRead_spec hwf h.holds henabled hstep with
    ⟨hnread, -⟩ | ⟨hnread, -⟩ | ⟨-, -, -, -, codec, v, hcodec, hv, rfl⟩
  · exact absurd hnread hzero
  · exact absurd hnread hneg
  · obtain ⟨-, -, hdelivered⟩ :=
      deliverAll_spec hwf (fun msg => Codec.length_le_of_mem_drain) hv
    rw [fed_of_nonneg (Int64.le_of_lt hpos)] at hcodec hdelivered
    rw [h.delivered, List.append_assoc] at hdelivered
    have happend := decoder.drain_append (s.codec.buffer.unread ++ xs)
      (base.take nread.toInt.toNat)
    rw [List.append_assoc] at happend
    constructor
    · rw [happend]
      exact hcodec
    · rw [happend]
      exact hdelivered

/-- **The server decodes everything it receives as one stream**, from any state it reaches
to any later one, as long as no read fails. -/
theorem decodes_of_later {history after : List Event} {s t : Server} (hs : Reaches history s)
    (ht : Reaches (history ++ after) t) (hafter : Unfailing after) :
    Decodes s t (sent (chunks after)) := by
  induction after using List.reverseRecOn generalizing t with
  | nil =>
      rw [List.append_nil] at ht
      obtain rfl := AbortingRun.ok_unique hs.run_eq_ok ht.run_eq_ok
      exact .refl hs
  | append_singleton after event ih =>
      obtain ⟨hbefore, hfails⟩ := unfailing_concat.mp hafter
      rw [← List.append_assoc] at ht
      obtain ⟨u, hu, henabled, hstep⟩ := AbortingRun.Reaches.of_concat ht
      have hdecodes := ih hu hbefore
      have hwf : u.Wf := Reaches.wf hu
      cases event with
      | connection status accepted sendBuf =>
          rw [chunks_concat_none rfl]
          rcases onConnection_spec hstep with ⟨-, rfl⟩ | ⟨-, -, rfl⟩
          · exact hdecodes
          · exact ⟨hdecodes.holds, hdecodes.delivered⟩
      | read hd nread base =>
          by_cases hpos : 0 < nread
          · have hchunk : Event.chunk (.read hd nread base) =
                some (hd, base.take nread.toInt.toNat) := if_pos hpos
            rw [chunks_concat_some hchunk, sent_concat]
            exact hdecodes.read hwf hpos henabled hstep
          · have hchunk : Event.chunk (.read hd nread base) = none := if_neg hpos
            rw [chunks_concat_none hchunk]
            rcases onRead_spec hwf hdecodes.holds henabled hstep with
              ⟨-, rfl⟩ | ⟨-, conn, -, -, rfl⟩ | ⟨hzero, hnread, -⟩
            · exact hdecodes
            · exact ⟨hdecodes.holds, hdecodes.delivered⟩
            · exact absurd ⟨Int64.lt_of_le_of_ne (Int64.not_lt.mp hpos) hzero, hnread⟩ hfails

/-- From the start on. -/
theorem decodes_of_reaches {history : List Event} {s : Server} (h : Reaches history s)
    (hhistory : Unfailing history) :
    s.codec.buffer.Holds (decoder.drain (sent (chunks history))).2 ∧
      s.delivered = (decoder.drain (sent (chunks history))).1 := by
  have hdecodes := decodes_of_later AbortingRun.Reaches.start h hhistory
  exact ⟨hdecodes.holds, hdecodes.delivered⟩

/-- **What a failed read does**, if its callback returns: nothing is broadcast, and the codec
has lost as many of the bytes it had kept as `nread` is below zero, the last ones. -/
theorem takesBack_of_failed {history : List Event} {s t : Server} (hs : Reaches history s)
    {hd : Handle} {nread : Int64} {base : List UInt8}
    (hfails : Event.Fails (.read hd nread base))
    (henabled : s.Enabled (.read hd nread base)) (hstep : s.step (.read hd nread base) = .ok t) :
    nread.toInt.natAbs ≤ s.codec.buffer.unread.length ∧ t.broadcasts = s.broadcasts ∧
      t.codec.buffer.unread = s.codec.buffer.unread.take
        (s.codec.buffer.unread.length - nread.toInt.natAbs) := by
  obtain ⟨hneg, hnread⟩ := hfails
  have hwf : s.Wf := hs.wf
  rcases onRead_spec hwf ⟨hwf.codec, rfl⟩ henabled hstep with
    ⟨rfl, -⟩ | ⟨heof, -⟩ | ⟨-, -, henough, -, codec, u, hcodec, hu, rfl⟩
  · exact absurd hneg (by decide)
  · exact absurd heof hnread
  · -- nor does the beginning of what was left over hold a complete message
    have hstuck := hs.stuck.take (s.codec.buffer.unread.length - nread.toInt.natAbs)
    have hdrain := IncrementalDecoder.drain_of_none (D := decoder)
      (Codec.nextMessage_eq_none.mpr hstuck)
    rw [fed, if_pos hneg, hdrain] at hcodec hu
    cases hu
    exact ⟨henough hneg, rfl, hcodec.unread_eq⟩

/-! ## Undisturbed connections -/

/-- Every read with data comes while each of the other handles has sent a whole number
of the frames of its messages, and a read only fails while each handle has. -/
def WholeFrames (msgs : Handle → List (List UInt8)) (history : List Event) : Prop :=
  ∀ before h nread base, before ++ [.read h nread base] <+: history →
    nread ≠ 0 → nread ≠ uvEof → ∀ h', (h' = h → nread < 0) →
      ∃ k, received h' before = frames ((msgs h').take k)

theorem wholeFrames_nil (msgs : Handle → List (List UInt8)) : WholeFrames msgs [] := by
  intro before h nread base hpre
  exact absurd (List.prefix_nil.mp hpre) (by simp)

/-- Another event, which comes while the others have sent whole frames. -/
theorem WholeFrames.concat {msgs : Handle → List (List UInt8)} {history : List Event}
    (hwhole : WholeFrames msgs history) {event : Event} (hfails : ¬event.Fails)
    (hothers : ∀ h chunk, event.chunk = some (h, chunk) →
      ∀ h' ≠ h, ∃ k, received h' history = frames ((msgs h').take k)) :
    WholeFrames msgs (history ++ [event]) := by
  intro before h nread base hpre hzero heof
  rcases List.prefix_concat_iff.mp hpre with heq | hpre
  · obtain ⟨rfl, hevent⟩ := List.append_inj' heq rfl
    cases hevent
    have hnonneg : 0 ≤ nread := Int64.not_lt.mp fun hneg => hfails ⟨hneg, heof⟩
    have hpos : 0 < nread := Int64.lt_of_le_of_ne hnonneg hzero.symm
    exact fun h' hne => hothers h _ (if_pos hpos) h'
      fun heq => absurd (hne heq) (Int64.not_lt.mpr hnonneg)
  · exact hwhole before h nread base hpre hzero heof

/-- A whole number of frames of non-empty messages leaves nothing over. -/
theorem drain_frames_take {msgs : List (List UInt8)}
    (hmsgs : ∀ msg ∈ msgs, 1 ≤ msg.length ∧ msg.length ≤ maxLength) (k : ℕ) {tail : List UInt8}
    (htail : Stuck tail) :
    decoder.drain (frames (msgs.take k) ++ tail) = (msgs.take k, tail) := by
  refine Codec.drain_frames ?_ htail (Or.inr ?_)
  · intro msg hmsg
    exact (hmsgs msg (List.mem_of_mem_take hmsg)).2
  · intro hlast
    have hnil := (hmsgs [] (List.mem_of_mem_take (List.mem_of_getLast? hlast))).1
    exact absurd hnil (by decide)

/-- Every chunk of a history was brought by one of its events. -/
theorem exists_read_of_chunks_prefix {history : List Event}
    {before : List (Handle × List UInt8)} {h : Handle} {chunk : List UInt8}
    (hpre : before ++ [(h, chunk)] <+: chunks history) :
    ∃ first nread base, first ++ [.read h nread base] <+: history ∧ 0 < nread ∧
      chunks first = before := by
  induction history using List.reverseRecOn with
  | nil =>
      have hnil := List.prefix_nil.mp hpre
      exact absurd hnil (by simp)
  | append_singleton history event ih =>
      cases hchunk : event.chunk with
      | none =>
          rw [chunks_concat_none hchunk] at hpre
          obtain ⟨first, nread, base, hfirst, hrest⟩ := ih hpre
          exact ⟨first, nread, base, hfirst.trans (List.prefix_append _ _), hrest⟩
      | some p =>
          rw [chunks_concat_some hchunk, List.prefix_concat_iff] at hpre
          rcases hpre with heq | hpre
          · obtain ⟨hbefore, hp⟩ := List.append_inj' heq rfl
            cases hp
            cases event with
            | connection status accepted sendBuf => cases hchunk
            | read hd nread base =>
                rw [Event.chunk] at hchunk
                split at hchunk
                · next hpos =>
                    cases hchunk
                    exact ⟨history, nread, base, List.prefix_rfl, hpos, hbefore.symm⟩
                · cases hchunk
          · obtain ⟨first, nread, base, hfirst, hrest⟩ := ih hpre
            exact ⟨first, nread, base, hfirst.trans (List.prefix_append _ _), hrest⟩

theorem WholeFrames.of_prefix {msgs : Handle → List (List UInt8)}
    {first history : List Event} (h : WholeFrames msgs history) (hpre : first <+: history) :
    WholeFrames msgs first :=
  fun before hd nread base hbefore => h before hd nread base (hbefore.trans hpre)

/-- Who has sent whole frames has left nothing over. -/
theorem drain_received_eq_nil {msgs : Handle → List (List UInt8)} {history : List Event}
    {h : Handle} (hmsgs : ∀ msg ∈ msgs h, 1 ≤ msg.length ∧ msg.length ≤ maxLength)
    (hwhole : ∃ k, received h history = frames ((msgs h).take k)) :
    (decoder.drain (received h history)).2 = [] := by
  obtain ⟨k, hk⟩ := hwhole
  have hdrain := drain_frames_take hmsgs k (Or.inl (Nat.zero_le 4) : Stuck [])
  rw [List.append_nil] at hdrain
  rw [hk, hdrain]

/-- Connections that send whole frames at a time do not disturb the shared decoder. -/
theorem WholeFrames.undisturbed {msgs : Handle → List (List UInt8)} {history : List Event}
    (hmsgs : ∀ h, ∀ msg ∈ msgs h, 1 ≤ msg.length ∧ msg.length ≤ maxLength)
    (h : WholeFrames msgs history) : Undisturbed decoder (chunks history) := by
  intro before hd chunk hpre h' hne
  obtain ⟨first, nread, base, hfirst, hpos, rfl⟩ := exists_read_of_chunks_prefix hpre
  have hzero : nread ≠ 0 := by
    rintro rfl
    exact absurd hpos (by decide)
  have heof : nread ≠ uvEof := by
    rintro rfl
    exact absurd hpos (by decide)
  exact drain_received_eq_nil (hmsgs h')
    (h first hd nread base hfirst hzero heof h' fun heq => absurd heq hne)

/-- No read fails in a run in which reads only fail while nothing is left over: a negative
`nread` has nothing to take back then, and the server stops in `append`. -/
theorem WholeFrames.unfailing {msgs : Handle → List (List UInt8)} {history : List Event}
    {s : Server} (hreach : Reaches history s)
    (hmsgs : ∀ h, ∀ msg ∈ msgs h, 1 ≤ msg.length ∧ msg.length ≤ maxLength)
    (h : WholeFrames msgs history) : Unfailing history := by
  induction hreach with
  | start => exact List.forall_mem_nil _
  | @event history s t event before henabled hstep ih =>
      have hwhole : WholeFrames msgs history := h.of_prefix (List.prefix_append _ _)
      have hbefore := ih hwhole
      refine unfailing_concat.mpr ⟨hbefore, fun hfails => ?_⟩
      cases event with
      | connection status accepted sendBuf => exact hfails
      | read hd nread base =>
          obtain ⟨hneg, heof⟩ := id hfails
          have hzero : nread ≠ 0 := by
            rintro rfl
            exact absurd hneg (by decide)
          have hnone : ∀ h', (decoder.drain (received h' history)).2 = [] := fun h' =>
            drain_received_eq_nil (hmsgs h')
              (h history hd nread base List.prefix_rfl hzero heof h' fun _ => hneg)
          have hshared := (IncrementalDecoder.sharedDrain_interleaves
            (hwhole.undisturbed hmsgs)).2 hd fun h' _ => hnone h'
          have hempty : s.codec.buffer.unread = [] := by
            rw [(decodes_of_reaches before hbefore).1.unread_eq, hshared]
            exact hnone hd
          obtain ⟨henough, -⟩ := takesBack_of_failed before hfails henabled hstep
          have hlow : nread.toInt < 0 := Int64.lt_iff_toInt_lt.mp hneg
          rw [hempty, List.length_nil] at henough
          omega

/-- **Connections that send whole frames at a time do not disturb each other's framing.**
Every connection sends the frames of its messages, cut anywhere and interleaved with the
others' reads so that each read comes while the others have sent whole frames; then in
every state that is reached, the messages delivered are an interleaving of the messages
of the connections, as far as these have been sent. -/
theorem delivered_interleaves {history : List Event} {s : Server}
    (hreach : Reaches history s) {msgs : Handle → List (List UInt8)}
    (hmsgs : ∀ h, ∀ msg ∈ msgs h, 1 ≤ msg.length ∧ msg.length ≤ maxLength)
    (hstreams : ∀ h, received h history <+: frames (msgs h))
    (hwhole : WholeFrames msgs history) :
    ∃ lists : Handle → List (List UInt8), Interleaves lists s.delivered ∧
      ∀ h, lists h <+: msgs h ∧ (received h history = frames (msgs h) → lists h = msgs h) := by
  obtain ⟨hinter, -⟩ :=
    IncrementalDecoder.sharedDrain_interleaves (hwhole.undisturbed hmsgs)
  rw [← (decodes_of_reaches hreach (hwhole.unfailing hreach hmsgs)).2] at hinter
  refine ⟨_, hinter, ?_⟩
  intro h
  show (decoder.drain (received h history)).1 <+: msgs h ∧ _
  obtain ⟨k, tail, -, hsplit, htail⟩ := Codec.exists_frames_of_prefix (hstreams h)
  have hstuck : Stuck tail := by
    rcases htail with rfl | ⟨msg, hmsg, htailpre, hlt⟩
    · exact Or.inl (Nat.zero_le 4)
    · exact Codec.stuck_of_prefix_frame (hmsgs h msg (List.mem_of_getElem? hmsg)).2 htailpre hlt
  have hdrain := drain_frames_take (hmsgs h) k hstuck
  constructor
  · rw [hsplit, hdrain]
    exact List.take_prefix k (msgs h)
  · intro hall
    have hwhole := drain_frames_take (hmsgs h) (msgs h).length (Or.inl (Nat.zero_le 4) : Stuck [])
    rw [List.append_nil, List.take_length, ← hall] at hwhole
    show (decoder.drain (received h history)).1 = msgs h
    rw [hwhole]

/-- The handle 0 says `[7]`, and the handle 1 says `[8]`. -/
def talk (h : Handle) : List (List UInt8) :=
  if h = ⟨0⟩ then [[7]] else if h = ⟨1⟩ then [[8]] else []

theorem talk_valid (h : Handle) : ∀ msg ∈ talk h, 1 ≤ msg.length ∧ msg.length ≤ maxLength := by
  unfold talk
  split
  · decide
  · split
    · decide
    · intro msg hmsg
      cases hmsg

/-- Two connections take turns; the second one sends its frame in two pieces. -/
def turns : List Event :=
  [.connection 0 0 zeroBuf, .connection 0 0 zeroBuf, .read ⟨0⟩ 5 [0, 0, 0, 1, 7],
    .read ⟨1⟩ 2 [0, 0], .read ⟨1⟩ 3 [0, 1, 8]]

/-- The second connection sends its frame in the middle of the frame of the first. -/
def interrupted : List Event :=
  [.connection 0 0 zeroBuf, .connection 0 0 zeroBuf, .read ⟨0⟩ 3 [0, 0, 0],
    .read ⟨1⟩ 5 [0, 0, 0, 1, 8], .read ⟨0⟩ 2 [1, 7]]

theorem received_eq_nil {history : List Event} {h : Handle}
    (hothers : ∀ p ∈ chunks history, p.1 ≠ h) : received h history = [] := by
  have hnone : (chunks history).filter (fun p => p.1 = h) = [] := by
    rw [List.filter_eq_nil_iff]
    intro p hp heq
    exact hothers p hp (of_decide_eq_true heq)
  rw [received, sentBy, hnone]
  rfl

/-- A history in which the two handles send their frames, and nobody else sends. -/
theorem received_eq_frames_talk {history : List Event}
    (hzero : received ⟨0⟩ history = frames [[7]]) (hone : received ⟨1⟩ history = frames [[8]])
    (hothers : ∀ p ∈ chunks history, p.1 = ⟨0⟩ ∨ p.1 = ⟨1⟩) (h : Handle) :
    received h history = frames (talk h) := by
  by_cases h₀ : h = ⟨0⟩
  · rw [h₀, hzero]
    rfl
  · by_cases h₁ : h = ⟨1⟩
    · rw [h₁, hone]
      rfl
    · rw [talk, if_neg h₀, if_neg h₁]
      refine received_eq_nil ?_
      intro p hp heq
      rcases hothers p hp with hp | hp
      · exact h₀ (heq.symm.trans hp)
      · exact h₁ (heq.symm.trans hp)

/-- The second handle may send once the first one has sent its frame. -/
theorem whole_of_ne_one {history : List Event}
    (hzero : received ⟨0⟩ history = frames [[7]])
    (hothers : ∀ p ∈ chunks history, p.1 = ⟨0⟩ ∨ p.1 = ⟨1⟩) (h : Handle) (hne : h ≠ ⟨1⟩) :
    ∃ k, received h history = frames ((talk h).take k) := by
  by_cases h₀ : h = ⟨0⟩
  · rw [h₀, hzero]
    exact ⟨1, rfl⟩
  · refine ⟨0, received_eq_nil ?_⟩
    intro p hp heq
    rcases hothers p hp with hp | hp
    · exact h₀ (heq.symm.trans hp)
    · exact hne (heq.symm.trans hp)

theorem wholeFrames_turns : WholeFrames talk turns := by
  have hconns : WholeFrames talk [.connection 0 0 zeroBuf, .connection 0 0 zeroBuf] :=
    ((wholeFrames_nil talk).concat (by decide) fun _ _ h => by cases h).concat (by decide)
      fun _ _ h => by cases h
  -- while the first handle sends, the others have sent nothing
  have hzero : WholeFrames talk [.connection 0 0 zeroBuf, .connection 0 0 zeroBuf,
      .read ⟨0⟩ 5 [0, 0, 0, 1, 7]] := hconns.concat (by decide) fun _ _ _ _ _ => ⟨0, rfl⟩
  have hhalf : WholeFrames talk [.connection 0 0 zeroBuf, .connection 0 0 zeroBuf,
      .read ⟨0⟩ 5 [0, 0, 0, 1, 7], .read ⟨1⟩ 2 [0, 0]] := by
    refine hzero.concat (by decide) ?_
    intro h chunk hchunk
    cases hchunk
    exact whole_of_ne_one (by decide +kernel) (by decide +kernel)
  refine hhalf.concat (by decide) ?_
  intro h chunk hchunk
  cases hchunk
  exact whole_of_ne_one (by decide +kernel) (by decide +kernel)

theorem delivered_interleaves_turns : ∃ s lists,
    Reaches turns s ∧ Interleaves lists s.delivered ∧
      ∀ h, lists h <+: talk h ∧ (received h turns = frames (talk h) → lists h = talk h) := by
  have hsome : (runEvents turns).isSome = true := by decide +kernel
  obtain ⟨s, hrun⟩ := Option.isSome_iff_exists.mp hsome
  have hreach := reaches_of_runEvents hrun
  have hreceived : ∀ h, received h turns = frames (talk h) :=
    received_eq_frames_talk (by decide +kernel) (by decide +kernel) (by decide +kernel)
  obtain ⟨lists, hinter, hlists⟩ := delivered_interleaves hreach talk_valid
    (fun h => hreceived h ▸ List.prefix_rfl) wholeFrames_turns
  exact ⟨s, lists, hreach, hinter, hlists⟩

/-- The two connections send whole frames in the end, but what is delivered is an empty
message. -/
theorem not_interleaves_interrupted : ∃ s, Reaches interrupted s ∧
    (∀ h, ∀ msg ∈ talk h, 1 ≤ msg.length ∧ msg.length ≤ maxLength) ∧
      (∀ h, received h interrupted = frames (talk h)) ∧ ¬Interleaves talk s.delivered := by
  have hdelivered : (runEvents interrupted).map delivered = some [[]] := by decide +kernel
  obtain ⟨s, hrun, hs⟩ := Option.map_eq_some_iff.mp hdelivered
  refine ⟨s, reaches_of_runEvents hrun, talk_valid,
    received_eq_frames_talk (by decide +kernel) (by decide +kernel) (by decide +kernel), ?_⟩
  intro hinter
  rw [hs] at hinter
  obtain ⟨h, hmem⟩ := hinter.exists_mem (List.mem_singleton_self [])
  exact absurd (talk_valid h [] hmem).1 (by decide)

end Server

end LearnUv
