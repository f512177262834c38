import LearnUv.Chat.Client
import LearnUv.Chat.Server
import LearnUv.Library.DeferredWrites

/-!
# Writes from one staging buffer

`Connection::send` and the client's `sendRawContent` copy what is to be sent into one
array, always the same, and give `uv_write` that array.  libuv copies the bytes out when
the socket takes them, which may be after the next call.

The queue of a socket holds references to the array and lengths, not bytes.  What will leave
the socket is read through these references, so the invariant says of each queued write that
the array still holds what was given to it; a call keeps the invariant exactly when it spares
what is queued.

## Main Definitions

* `StagingSender` — a function that sends from one array
* `connectionSender`, `clientSender` — the two of the repository
* `Socket`, `Event`, `step` — calls of the sender, and libuv copying out
* `SparesQueued` — the call overwrites nothing that is still queued, except by the same
  bytes

## Main Results

* `StagingSender.inOrder_of_reaches` — calls that spare what is queued keep the order
* `send_leavesInOrder` — for both senders
-/

namespace LearnUv

open DeferredWrites

/-- A function that stages what it is given in an array, on a state `σ`. -/
structure StagingSender (σ : Type) (n : ℕ) where
  sendBuf : σ → CharArray n
  send : σ → List UInt8 → UInt64 → Exec (σ × UvBuf)
  /-- A call that returns has staged the bytes and handed over the array. -/
  send_eq_ok : ∀ {s s' : σ} {buf : List UInt8} {len : UInt64} {ub : UvBuf},
    send s buf len = .ok (s', ub) → stage (sendBuf s) buf len = .ok (sendBuf s', ub)
  /-- The length of the array is an `unsigned int`. -/
  size_lt : n < 2 ^ 32

/-- `Connection::send`. -/
def connectionSender : StagingSender Connection 8192 where
  sendBuf := Connection.sendBuf
  send := Connection.send
  send_eq_ok := by
    intro conn conn' buf len ub h
    obtain ⟨⟨sendBuf, ub'⟩, hstage, h⟩ := AbortingRun.bind_eq_ok.mp h
    cases h
    exact hstage
  size_lt := by decide

/-- `sendRawContent`, whose length is an `ssize_t`. -/
def clientSender : StagingSender (CharArray 1024) 1024 where
  sendBuf := id
  send := fun sendBuf buf len => sendRawContent sendBuf buf len.toInt64
  send_eq_ok := by
    intro sendBuf sendBuf' buf len ub h
    rwa [sendRawContent, UInt64.toUInt64_toInt64] at h
  size_lt := by decide

namespace StagingSender

variable {σ : Type} {n : ℕ} (S : StagingSender σ n)

/-! ## Calls and copies -/

/-- A sender, and what libuv has of it. -/
structure Socket (σ : Type) where
  sender : σ
  queue : Transport UInt8

/-- A call of the sender, or libuv copying out at most `k` bytes of the oldest write. -/
inductive Event
  | send (buf : List UInt8) (len : UInt64)
  | flush (k : ℕ)
  deriving DecidableEq

/-- The memory libuv copies from. -/
def memory (sock : Socket σ) : List UInt8 := (S.sendBuf sock.sender).bytes

/-- One event. -/
def step (sock : Socket σ) : Event → Exec (Socket σ)
  | .send buf len => do
      let (sender, ub) ← S.send sock.sender buf len
      return { sender, queue := sock.queue.submit ub.len.toNat }
  | .flush k => .ok { sock with queue := sock.queue.flush (S.memory sock) k }

/-- The bytes a call was given. -/
def Event.given : Event → List UInt8
  | .send buf len => buf.take len.toNat
  | .flush _ => []

/-- The bytes the calls were given, in call order. -/
def given (events : List Event) : List UInt8 := (events.map Event.given).flatten

/-- A call puts into every byte that is still queued the byte that is there already. -/
def SparesQueued (sock : Socket σ) : Event → Prop
  | .send buf len =>
      ∀ range ∈ sock.queue.pending, ∀ i < range.1 + range.2, range.1 ≤ i →
        i < len.toNat → buf[i]? = (S.memory sock)[i]?
  | .flush _ => True

instance decidableSparesQueued (sock : Socket σ) (event : Event) :
    Decidable (S.SparesQueued sock event) :=
  match event with
  | .send buf len => inferInstanceAs (Decidable (∀ range ∈ sock.queue.pending,
      ∀ i < range.1 + range.2, range.1 ≤ i → i < len.toNat → buf[i]? = (S.memory sock)[i]?))
  | .flush _ => inferInstanceAs (Decidable True)

/-- A sender nothing was sent with yet. -/
def Socket.open (sender : σ) : Socket σ := ⟨sender, .idle⟩

/-- The socket is in order: what has left, and what would leave if libuv copied all that
is queued now, is what the calls were given. -/
def SocketInOrder (sock : Socket σ) (events : List Event) : Prop :=
  InOrder (S.memory sock) sock.queue (given events)

/-! ## What a call does -/

/-- A call that returns has put the bytes at the front of the array, and submitted them. -/
theorem send_spec {sock sock' : Socket σ} {buf : List UInt8} {len : UInt64}
    (h : S.step sock (.send buf len) = .ok sock') :
    len.toNat ≤ buf.length ∧ len.toNat ≤ (S.memory sock).length ∧
      S.memory sock' = overwrite (S.memory sock) 0 (buf.take len.toNat) ∧
      sock'.queue = sock.queue.submit len.toNat := by
  obtain ⟨⟨sender, ub⟩, hsend, h⟩ := AbortingRun.bind_eq_ok.mp h
  cases h
  have hstage := S.send_eq_ok hsend
  have hlength := (S.sendBuf sock.sender).length_eq
  by_cases hfits : len.toNat ≤ buf.length ∧ len.toNat ≤ n
  · obtain ⟨array, hok, hbytes, -⟩ :=
      stage_of_fits (S.sendBuf sock.sender) S.size_lt hfits.1 hfits.2
    rw [hok] at hstage
    obtain ⟨harray, hub⟩ := Prod.mk.inj (Except.ok.inj hstage)
    refine ⟨hfits.1, hfits.2.trans_eq hlength.symm, ?_, ?_⟩
    · show (S.sendBuf sender).bytes = _
      rw [← harray, hbytes]
      rfl
    · rw [← hub]
  · rw [stage, CharArray.memcpy, dif_neg hfits, AbortingRun.error_bind] at hstage
    cases hstage

/-- What the array holds after a call. -/
theorem getElem?_overwrite_take {memory buf : List UInt8} {len : ℕ} (hbuf : len ≤ buf.length)
    (i : ℕ) : (overwrite memory 0 (buf.take len))[i]? =
      if i < len then buf[i]? else memory[i]? := by
  have hlen : (buf.take len).length = len := List.length_take_of_le hbuf
  rw [overwrite, List.take_zero, List.nil_append, Nat.zero_add, hlen]
  split
  · next hi => rw [List.getElem?_append_left (hlen.symm ▸ hi), List.getElem?_take_of_lt hi]
  · next hi =>
      rw [List.getElem?_append_right (by omega), List.getElem?_drop, hlen,
        Nat.add_sub_cancel' (by omega)]

/-- **A call keeps the order exactly when it spares what is queued.** -/
theorem inOrder_send_iff {sock sock' : Socket σ} {events : List Event} {buf : List UInt8}
    {len : UInt64} (h : S.SocketInOrder sock events)
    (hstep : S.step sock (.send buf len) = .ok sock') :
    S.SocketInOrder sock' (events ++ [.send buf len]) ↔ S.SparesQueued sock (.send buf len) := by
  obtain ⟨hbuf, hfits, hmemory, hqueue⟩ := S.send_spec hstep
  have hlen : (buf.take len.toNat).length = len.toNat := List.length_take_of_le hbuf
  have hlength : (S.memory sock').length = (S.memory sock).length := by
    rw [hmemory, length_overwrite (by rw [hlen]; omega)]
  have hfront : (S.memory sock').take len.toNat = buf.take len.toNat := by
    have htake := @take_overwrite (S.memory sock) (buf.take len.toNat) 0 (Nat.zero_le _)
    rwa [hlen, Nat.zero_add, List.take_zero, List.nil_append, ← hmemory] at htake
  have hgiven : given (events ++ [.send buf len]) =
      given events ++ (S.memory sock').take len.toNat := by
    rw [hfront, given, List.map_append, List.flatten_append]
    simp [Event.given, given]
  rw [SocketInOrder, hgiven, hqueue, h.submit_iff hlength len.toNat]
  refine forall₂_congr fun range _ => forall_congr' fun i => forall₂_congr fun _ _ => ?_
  rw [hmemory, getElem?_overwrite_take hbuf]
  by_cases hi : i < len.toNat
  · rw [if_pos hi]
    exact ⟨fun heq _ => heq, fun heq => heq hi⟩
  · rw [if_neg hi]
    exact ⟨fun _ hi' => absurd hi' hi, fun _ => rfl⟩

/-- **Calls that spare what is queued keep the order**, whenever libuv copies and however
much at a time. -/
theorem inOrder_of_reaches {sender : σ} {events : List Event} {sock : Socket σ}
    (h : AbortingRun.Reaches S.step S.SparesQueued (Socket.open sender) events sock) :
    S.SocketInOrder sock events := by
  induction h with
  | start => exact inOrder_idle _
  | @event events sock sock' event before hspares hstep ih =>
      cases event with
      | send buf len => exact (S.inOrder_send_iff ih hstep).mpr hspares
      | flush k =>
          cases hstep
          have hgiven : given (events ++ [.flush k]) = given events := by
            simp [given, Event.given]
          rw [SocketInOrder, hgiven]
          exact ih.flush k

/-- What has left is the front of what the calls were given, and all of it once nothing
is queued. -/
def LeavesInOrder (sock : Socket σ) (events : List Event) : Prop :=
  sock.queue.out <+: given events ∧ (sock.queue.pending = [] → sock.queue.out = given events)

end StagingSender

open StagingSender (Socket Event LeavesInOrder given)

/-- **What leaves a socket is what the calls were given, in call order**, for the
connections of the server and for the client: in every run in which every call spares
what is still queued.  By `inOrder_send_iff`, after the first call that does not, copying
everything out at once would send something else. -/
theorem send_leavesInOrder (conn : Connection) (sendBuf : CharArray 1024)
    (events : List Event) :
    (∀ sock : Socket Connection,
      AbortingRun.Reaches connectionSender.step connectionSender.SparesQueued (.open conn)
        events sock → LeavesInOrder sock events) ∧
    ∀ sock : Socket (CharArray 1024),
      AbortingRun.Reaches clientSender.step clientSender.SparesQueued (.open sendBuf)
        events sock → LeavesInOrder sock events := by
  constructor
  · intro sock h
    have hinOrder := connectionSender.inOrder_of_reaches h
    exact ⟨hinOrder.prefix_given, hinOrder.out_eq⟩
  · intro sock h
    have hinOrder := clientSender.inOrder_of_reaches h
    exact ⟨hinOrder.prefix_given, hinOrder.out_eq⟩

/-- A connection of the server, before it sent anything. -/
def freshConn : Connection := ⟨0, ⟨0⟩, CharArray.zeros 8192⟩

/-- The second call comes when the first write has left, and leaves in two pieces. -/
def patientCalls : List Event :=
  [.send [1, 2] 2, .flush 2, .send [3, 4] 2, .flush 1, .flush 1]

theorem send_leavesInOrder_patientCalls : ∃ sock,
    AbortingRun.Reaches connectionSender.step connectionSender.SparesQueued
      (.open freshConn) patientCalls sock ∧ LeavesInOrder sock patientCalls := by
  have hsome : (AbortingRun.runEnabled connectionSender.step connectionSender.SparesQueued
      (.open freshConn) patientCalls).isSome = true := by decide +kernel
  obtain ⟨sock, hrun⟩ := Option.isSome_iff_exists.mp hsome
  have hreach := AbortingRun.Reaches.start.of_runEnabled hrun
  have hboth := send_leavesInOrder freshConn (CharArray.zeros 1024) patientCalls
  exact ⟨sock, hreach, hboth.1 sock hreach⟩

/-- Two calls before libuv copies anything out. -/
def hastyCalls : List Event := [.send [1] 1, .send [2] 1, .flush 1, .flush 1]

/-- Both writes leave with the byte of the second call. -/
theorem not_leavesInOrder_hastyCalls : ∃ sock,
    AbortingRun.run connectionSender.step (.open freshConn) hastyCalls = .ok sock ∧
      ¬LeavesInOrder sock hastyCalls := by
  have hqueue : (AbortingRun.run connectionSender.step (.open freshConn) hastyCalls).map
      (fun sock => (sock.queue.pending, sock.queue.out)) = .ok ([], [2, 2]) := by
    decide +kernel
  obtain ⟨sock, hrun, hsock⟩ := AbortingRun.exists_of_map_eq_ok hqueue
  obtain ⟨hpending, hout⟩ := Prod.mk.inj hsock
  refine ⟨sock, hrun, ?_⟩
  rintro ⟨-, hall⟩
  rw [hout] at hall
  exact absurd (hall hpending) (by decide)

end LearnUv
