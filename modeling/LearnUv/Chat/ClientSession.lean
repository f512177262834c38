import LearnUv.Chat.Client
import LearnUv.Chat.ServerSpec

/-!
# A session of the chat client

Once connected, the client reads its standard input and the connection: what is typed is
sent, and what arrives is decoded and printed.  Both directions go through the one global
`codec`, and the end of the connection closes the standard input.

libuv is the environment: it calls back for a handle that is being read, and stops reading
a handle at its end or at an error.

The two directions do not touch each other: a read of the standard input changes the outgoing
buffer and a read of the connection the one of the codec, so what a session has sent is a
function of what was typed, and what it has printed one of what has arrived.  `relays_of_reaches`
says this of whole runs; the proof follows both directions through one invariant, because the
end of the connection is what stops the reads of the standard input.

## Main Definitions

* `Session` — the state of the program
* `onConnected`, `onReadTcp`, `onStringMessage` — its callbacks, with `onReadStdin`
* `Relays` — the directions do not disturb each other

## Main Results

* `relays_of_reaches` — what is sent and what is printed, under any interleaving
-/

namespace LearnUv

open Codec (frame frames decoder maxLength deliverAll)

namespace Client

/-- A `uv_pipe_t`, as far as the program sees it. -/
structure Pipe where
  /-- `uv_read_start` was called, and libuv has not stopped. -/
  reading : Bool
  /-- How often `uv_close` was called. -/
  closes : ℕ
  deriving DecidableEq, Repr

/-- The state of `ChatClient`. -/
structure Session where
  client : Client
  codec : Codec
  /-- The connect request is under way. -/
  connecting : Bool
  stdinPipe : Option Pipe
  tcpReading : Bool
  /-- The messages that were printed. -/
  printed : List (List UInt8)

/-- `onStringMessage`: `%s` prints the message up to its first NUL. -/
def onStringMessage (msg : List UInt8) (printed : List (List UInt8)) :
    Exec (List (List UInt8)) := .ok (printed ++ [cString (cStr msg)])

namespace Session

/-- `on_connected`.  `opened` is what `uv_pipe_open` returns, and `stdinStarted` and
`tcpStarted` are what the two calls of `uv_read_start` return. -/
def onConnected (s : Session) (status opened stdinStarted tcpStarted : Int32) :
    Exec Session := do
  if status < 0 then
    return s
  else
    checkUv opened
    checkUv stdinStarted
    checkUv tcpStarted
    return { s with stdinPipe := some ⟨true, 0⟩, tcpReading := true }

/-- `uv_close(stdinPipe)`. -/
def closeStdin (s : Session) : Exec Session :=
  match s.stdinPipe with
  | some pipe => .ok { s with stdinPipe := some ⟨false, pipe.closes + 1⟩ }
  | none => .error .outOfBounds

/-- `on_read_tcp`. -/
def onReadTcp (s : Session) (nread : Int64) (base : List UInt8) : Exec Session := do
  if nread < 0 then
    if nread = uvEof then
      s.closeStdin
    else
      return s
  else if nread = 0 then
    return s
  else
    let (codec, printed) ← s.codec.onUvRead onStringMessage nread.toUInt64 base s.printed
    return { s with codec, printed }

/-- libuv stops reading the standard input. -/
def stopStdin (s : Session) : Session :=
  { s with stdinPipe := s.stdinPipe.map fun pipe => { pipe with reading := false } }

/-! ## Runs -/

/-- The callbacks libuv makes. -/
inductive Event
  | connected (status opened stdinStarted tcpStarted : Int32)
  | readStdin (nread : Int64) (base : List UInt8)
  | readTcp (nread : Int64) (base : List UInt8)
  deriving DecidableEq

/-- One callback, behind which libuv has stopped reading what has ended. -/
def step (s : Session) : Event → Exec Session
  | .connected status opened stdinStarted tcpStarted =>
      { s with connecting := false }.onConnected status opened stdinStarted tcpStarted
  | .readStdin nread base => do
      let client ← s.client.onReadStdin nread base
      let s := { s with client }
      return if nread < 0 then s.stopStdin else s
  | .readTcp nread base => do
      let s ← s.onReadTcp nread base
      return if nread < 0 then { s with tcpReading := false } else s

/-- Which callbacks libuv may make. -/
def Enabled (s : Session) : Event → Prop
  | .connected _ _ _ _ => s.connecting = true
  | .readStdin nread base =>
      s.stdinPipe.any Pipe.reading = true ∧ nread.toInt ≤ base.length
  | .readTcp nread base => s.tcpReading = true ∧ nread.toInt ≤ base.length

instance decidableEnabled (s : Session) (event : Event) : Decidable (s.Enabled event) :=
  match event with
  | .connected _ _ _ _ => inferInstanceAs (Decidable (s.connecting = true))
  | .readStdin nread base => inferInstanceAs
      (Decidable (s.stdinPipe.any Pipe.reading = true ∧ nread.toInt ≤ base.length))
  | .readTcp nread base =>
      inferInstanceAs (Decidable (s.tcpReading = true ∧ nread.toInt ≤ base.length))

/-- The state `main` starts the loop in. -/
def start : Session where
  client := Client.start
  codec := Codec.new
  connecting := true
  stdinPipe := none
  tcpReading := false
  printed := []

/-- The states the client reaches, with the events that led there. -/
def Reaches (history : List Event) (s : Session) : Prop :=
  AbortingRun.Reaches step Enabled start history s

/-- The state a history leads to, computed. -/
def runEvents (history : List Event) : Option Session :=
  AbortingRun.runEnabled step Enabled start history

theorem reaches_of_runEvents {history : List Event} {s : Session}
    (h : runEvents history = some s) : Reaches history s :=
  AbortingRun.Reaches.start.of_runEnabled h

/-! ## The two directions -/

/-- A read of the standard input. -/
def Event.stdinRead : Event → Option (Int64 × List UInt8)
  | .connected _ _ _ _ => none
  | .readStdin nread base => some (nread, base)
  | .readTcp _ _ => none

/-- The bytes that come from the connection. -/
def Event.tcpBytes : Event → List UInt8
  | .connected _ _ _ _ => []
  | .readStdin _ _ => []
  | .readTcp nread base => base.take nread.toInt.toNat

/-- The reads of the standard input. -/
def stdinReads (history : List Event) : List (Int64 × List UInt8) :=
  history.filterMap Event.stdinRead

/-- What was received. -/
def tcpStream (history : List Event) : List UInt8 := history.flatMap Event.tcpBytes

/-- `on_read_stdin` alone. -/
def sendStep (client : Client) (rd : Int64 × List UInt8) : Exec Client :=
  client.onReadStdin rd.1 rd.2

theorem stdinReads_concat_none {event : Event} (h : event.stdinRead = none)
    (history : List Event) : stdinReads (history ++ [event]) = stdinReads history := by
  rw [stdinReads, List.filterMap_append, List.filterMap_cons_none h, List.filterMap_nil,
    List.append_nil]
  rfl

theorem stdinReads_concat_readStdin (history : List Event) (nread : Int64)
    (base : List UInt8) :
    stdinReads (history ++ [.readStdin nread base]) = stdinReads history ++ [(nread, base)] := by
  rw [stdinReads, List.filterMap_append]
  rfl

@[simp] theorem tcpStream_concat (history : List Event) (event : Event) :
    tcpStream (history ++ [event]) = tcpStream history ++ event.tcpBytes := by
  rw [tcpStream, List.flatMap_append, List.flatMap_singleton]
  rfl

/-- **The directions do not disturb each other.** -/
structure Relays (history : List Event) (s : Session) : Prop where
  /-- What was sent is what the reads of the standard input alone send. -/
  sent : AbortingRun.run sendStep Client.start (stdinReads history) = .ok s.client
  /-- What was printed is what the decoder makes of the bytes received, and the rest is
  kept. -/
  printed : s.printed = (decoder.drain (tcpStream history)).1.map cString
  kept : s.codec.buffer.Holds (decoder.drain (tcpStream history)).2
  /-- The end of the connection is the last event: nothing is read any more. -/
  ends : ∀ before base after, history = before ++ .readTcp uvEof base :: after → after = []

/-! ## What the callbacks do -/

theorem deliverAll_onStringMessage (printed msgs : List (List UInt8)) :
    deliverAll onStringMessage printed msgs = .ok (printed ++ msgs.map cString) := by
  induction msgs generalizing printed with
  | nil => simp [deliverAll]
  | cons msg msgs ih =>
      have hrest := ih (printed ++ [cString msg])
      rw [List.append_assoc, List.singleton_append] at hrest
      rw [deliverAll, AbortingRun.run_cons, onStringMessage, cString_cStr, AbortingRun.ok_bind]
      exact hrest

/-- A connection that comes about, or does not. -/
theorem onConnected_spec {s t : Session} {status opened stdinStarted tcpStarted : Int32}
    (h : s.onConnected status opened stdinStarted tcpStarted = .ok t) :
    t = s ∨ t = { s with stdinPipe := some ⟨true, 0⟩, tcpReading := true } := by
  unfold onConnected at h
  split at h
  · cases h
    exact Or.inl rfl
  · obtain ⟨-, -, h⟩ := AbortingRun.bind_eq_ok.mp h
    obtain ⟨-, -, h⟩ := AbortingRun.bind_eq_ok.mp h
    obtain ⟨-, -, h⟩ := AbortingRun.bind_eq_ok.mp h
    cases h
    exact Or.inr rfl

/-- **The ways a read of the connection returns**: the end closes the standard input; an
error and a read of nothing do nothing; and data are decoded and printed. -/
theorem onReadTcp_spec {s t : Session} {xs base : List UInt8} {nread : Int64}
    (hprinted : s.printed = (decoder.drain xs).1.map cString)
    (hkept : s.codec.buffer.Holds (decoder.drain xs).2) (hle : nread.toInt ≤ base.length)
    (h : s.onReadTcp nread base = .ok t) :
    t.client = s.client ∧ t.connecting = s.connecting ∧ t.tcpReading = s.tcpReading ∧
      t.printed = (decoder.drain (xs ++ base.take nread.toInt.toNat)).1.map cString ∧
      t.codec.buffer.Holds (decoder.drain (xs ++ base.take nread.toInt.toNat)).2 ∧
      (nread ≠ uvEof → t.stdinPipe = s.stdinPipe) ∧
      (nread = uvEof → t.stdinPipe.any Pipe.reading = false) := by
  have hnothing : nread ≤ 0 → base.take nread.toInt.toNat = [] := by
    intro hnread
    rw [Int64.le_iff_toInt_le] at hnread
    have hzero : (0 : Int64).toInt = 0 := rfl
    rw [Int.toNat_of_nonpos (by omega), List.take_zero]
  unfold onReadTcp at h
  split at h
  · next hneg =>
      rw [hnothing (Int64.le_of_lt hneg), List.append_nil]
      split at h
      · next hnread =>
          unfold closeStdin at h
          split at h
          · cases h
            exact ⟨rfl, rfl, rfl, hprinted, hkept, fun hne => absurd hnread hne, fun _ => rfl⟩
          · cases h
      · next hnread =>
          cases h
          exact ⟨rfl, rfl, rfl, hprinted, hkept, fun _ => rfl, fun heq => absurd heq hnread⟩
  · next hneg =>
      have hne : nread ≠ uvEof := by
        rintro rfl
        exact hneg (by decide)
      split at h
      · next hzero =>
          rw [hnothing (by rw [hzero]; exact Int64.le_refl _), List.append_nil]
          cases h
          exact ⟨rfl, rfl, rfl, hprinted, hkept, fun _ => rfl, fun heq => absurd heq hne⟩
      · next hzero =>
          obtain ⟨⟨codec, printed⟩, huv, ht⟩ := AbortingRun.bind_eq_ok.mp h
          cases ht
          have hpos : 0 ≤ nread := Int64.not_lt.mp hneg
          rw [decoder.drain_append]
          rcases Codec.onUvRead_spec hkept (Server.dataRead nread base hpos hle) with
            ⟨abort, -, herr⟩ | ⟨codec', hcodec, hcb⟩
          · exact absurd ((herr onStringMessage s.printed).symm.trans huv) (by simp)
          · have hread := (hcb onStringMessage s.printed).symm.trans huv
            rw [Server.dataRead_bytes, deliverAll_onStringMessage, AbortingRun.ok_bind] at hread
            rw [Server.dataRead_bytes] at hcodec
            cases hread
            refine ⟨rfl, rfl, rfl, ?_, hcodec, fun _ => rfl, fun heq => absurd heq hne⟩
            rw [hprinted, List.map_append]

/-! ## What holds in every session -/

/-- The invariant of the session. -/
structure Running (history : List Event) (s : Session) : Prop where
  relays : Relays history s
  /-- Nothing is read before the connection is there. -/
  connected : s.tcpReading = true → s.connecting = false
  /-- When the connection has ended, nothing is read any more. -/
  ended : ∀ base, Event.readTcp uvEof base ∈ history →
    s.connecting = false ∧ s.tcpReading = false ∧ s.stdinPipe.any Pipe.reading = false

theorem running_start : Running [] start where
  relays :=
    { sent := rfl
      printed := by rw [tcpStream, List.flatMap_nil, IncrementalDecoder.drain_nil]; rfl
      kept := by
        rw [tcpStream, List.flatMap_nil, IncrementalDecoder.drain_nil]
        exact Buffer.holds_new 8192 (by decide)
      ends := fun before base after hsplit => absurd hsplit (by simp) }
  connected := fun h => absurd h (by decide)
  ended := fun base h => absurd h List.not_mem_nil

namespace Running

variable {history : List Event} {s t : Session} {event : Event}

/-- No callback is made when the connection has ended. -/
theorem notMem_of_enabled (h : Running history s) (henabled : s.Enabled event)
    (base : List UInt8) : Event.readTcp uvEof base ∉ history := by
  intro hmem
  obtain ⟨hconnecting, htcp, hstdin⟩ := h.ended base hmem
  cases event with
  | connected status opened stdinStarted tcpStarted =>
      exact absurd (hconnecting.symm.trans henabled) (by decide)
  | readStdin nread base => exact absurd (hstdin.symm.trans henabled.1) (by decide)
  | readTcp nread base => exact absurd (htcp.symm.trans henabled.1) (by decide)

/-- So the end of the connection is the last event. -/
theorem ends (h : Running history s) (henabled : s.Enabled event) :
    ∀ before base after, history ++ [event] = before ++ .readTcp uvEof base :: after →
      after = [] := by
  intro before base after hsplit
  rcases List.eq_nil_or_concat after with rfl | ⟨after', last, rfl⟩
  · rfl
  · rw [List.concat_eq_append, ← List.cons_append, ← List.append_assoc] at hsplit
    obtain ⟨rfl, -⟩ := List.append_inj' hsplit rfl
    exact absurd (List.mem_append_right _ List.mem_cons_self)
      (h.notMem_of_enabled henabled base)

/-- An event that is not the end of the connection. -/
theorem over_of_ne (h : Running history s) (henabled : s.Enabled event)
    (hne : ∀ base, event ≠ .readTcp uvEof base) (base : List UInt8) :
    Event.readTcp uvEof base ∉ history ++ [event] := by
  intro hmem
  rcases List.mem_append.mp hmem with hold | hnew
  · exact h.notMem_of_enabled henabled base hold
  · exact hne base (List.mem_singleton.mp hnew).symm

theorem connected_step (h : Running history s) {status opened stdinStarted tcpStarted : Int32}
    (henabled : s.Enabled (.connected status opened stdinStarted tcpStarted))
    (hstep : s.step (.connected status opened stdinStarted tcpStarted) = .ok t) :
    Running (history ++ [.connected status opened stdinStarted tcpStarted]) t := by
  obtain ⟨hclient, hcodec, hprinted, hconnecting⟩ : t.client = s.client ∧ t.codec = s.codec ∧
      t.printed = s.printed ∧ t.connecting = false := by
    rcases onConnected_spec hstep with rfl | rfl <;> exact ⟨rfl, rfl, rfl, rfl⟩
  refine ⟨⟨?_, ?_, ?_, h.ends henabled⟩, fun _ => hconnecting, ?_⟩
  · rw [stdinReads_concat_none rfl, hclient]
    exact h.relays.sent
  · rw [tcpStream_concat, hprinted, h.relays.printed]
    rw [Event.tcpBytes, List.append_nil]
  · rw [tcpStream_concat, hcodec, Event.tcpBytes, List.append_nil]
    exact h.relays.kept
  · exact fun base hmem =>
      absurd hmem (h.over_of_ne henabled (fun base => Event.noConfusion) base)

theorem stdin_step (h : Running history s) {nread : Int64} {base : List UInt8}
    (henabled : s.Enabled (.readStdin nread base))
    (hstep : s.step (.readStdin nread base) = .ok t) :
    Running (history ++ [.readStdin nread base]) t := by
  obtain ⟨client, hclient, ht⟩ := AbortingRun.bind_eq_ok.mp hstep
  obtain ⟨hsent, hcodec, hprinted, htcp, hconnecting⟩ : t.client = client ∧
      t.codec = s.codec ∧ t.printed = s.printed ∧ t.tcpReading = s.tcpReading ∧
        t.connecting = s.connecting := by
    dsimp only at ht
    split at ht <;> cases ht <;> exact ⟨rfl, rfl, rfl, rfl, rfl⟩
  refine ⟨⟨?_, ?_, ?_, h.ends henabled⟩, ?_, ?_⟩
  · rw [stdinReads_concat_readStdin, AbortingRun.run_concat_eq_ok]
    exact ⟨s.client, h.relays.sent, hsent ▸ hclient⟩
  · rw [tcpStream_concat, hprinted, h.relays.printed, Event.tcpBytes, List.append_nil]
  · rw [tcpStream_concat, hcodec, Event.tcpBytes, List.append_nil]
    exact h.relays.kept
  · rw [htcp, hconnecting]
    exact h.connected
  · exact fun base hmem =>
      absurd hmem (h.over_of_ne henabled (fun base => Event.noConfusion) base)

theorem tcp_step (h : Running history s) {nread : Int64} {base : List UInt8}
    (henabled : s.Enabled (.readTcp nread base))
    (hstep : s.step (.readTcp nread base) = .ok t) :
    Running (history ++ [.readTcp nread base]) t := by
  obtain ⟨u, hread, ht⟩ := AbortingRun.bind_eq_ok.mp hstep
  obtain ⟨hclient, hconnecting, htcp, hprinted, hkept, -, hend⟩ :=
    onReadTcp_spec h.relays.printed h.relays.kept henabled.2 hread
  obtain ⟨hsame, hreading⟩ : (t.client = u.client ∧ t.codec = u.codec ∧
      t.printed = u.printed ∧ t.connecting = u.connecting ∧ t.stdinPipe = u.stdinPipe) ∧
        t.tcpReading = (u.tcpReading && !decide (nread < 0)) := by
    split at ht <;> next hneg => cases ht; simp [hneg]
  obtain ⟨hclient', hcodec', hprinted', hconnecting', hstdin'⟩ := hsame
  have hconnected : s.connecting = false := h.connected henabled.1
  refine ⟨⟨?_, ?_, ?_, h.ends henabled⟩, ?_, ?_⟩
  · rw [stdinReads_concat_none rfl, hclient', hclient]
    exact h.relays.sent
  · rw [tcpStream_concat, hprinted', hprinted]
    rfl
  · rw [tcpStream_concat, hcodec']
    exact hkept
  · intro _
    rw [hconnecting', hconnecting, hconnected]
  · intro base' hmem
    rcases List.mem_append.mp hmem with hold | hnew
    · exact absurd hold (h.notMem_of_enabled henabled base')
    · cases List.mem_singleton.mp hnew
      refine ⟨by rw [hconnecting', hconnecting, hconnected], ?_, ?_⟩
      · rw [hreading]
        simp [uvEof]
      · rw [hstdin']
        exact hend rfl

end Running

/-- Every session the client reaches satisfies the invariant. -/
theorem Reaches.running {history : List Event} {s : Session} (h : Reaches history s) :
    Running history s := by
  induction h with
  | start => exact running_start
  | @event history s t event before henabled hstep ih =>
      cases event with
      | connected status opened stdinStarted tcpStarted =>
          exact ih.connected_step henabled hstep
      | readStdin nread base => exact ih.stdin_step henabled hstep
      | readTcp nread base => exact ih.tcp_step henabled hstep

/-- **The directions do not disturb each other, under any interleaving.** -/
theorem relays_of_reaches {history : List Event} {s : Session} (h : Reaches history s) :
    Relays history s :=
  h.running.relays

/-- A message arrives in two pieces, and then the connection ends. -/
def oneMessage : List Event :=
  [.connected 0 0 0 0, .readTcp 3 [0, 0, 0], .readTcp 2 [1, 7], .readTcp uvEof []]

theorem relays_of_reaches_oneMessage : ∃ s, Reaches oneMessage s ∧ Relays oneMessage s := by
  obtain ⟨s, hs⟩ := Option.isSome_iff_exists.mp
    (show (runEvents oneMessage).isSome = true by decide +kernel)
  exact ⟨s, reaches_of_runEvents hs, relays_of_reaches (reaches_of_runEvents hs)⟩

end Session

end Client

end LearnUv
