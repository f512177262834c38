import LearnUv.PingPong.Echo

/-!
# What the server sends to its clients

All clients of the server share `msgBuf`, so a client can be sent bytes of another one.
This module says what remains true in every run, also in those whose reads spare nothing.
Only what was read is written, so no byte of the memory that `malloc` returned is sent to
anybody; and a client is sent as many bytes as it has sent itself.

`msgBuf` is filled from its front, so what reads have filled is an initial part of it, which
never shrinks.  A read of one client is followed at once by a write of as many bytes, from
there; the bytes may be overwritten by another read before they are copied out, but only by
bytes that were read, too.

## Main Definitions

* `Server.Received` — a byte was read from some client
* `Server.Sourced` — what is queued lies in the part of `msgBuf` that reads have filled

## Main Results

* `Server.received_of_reaches` — where the bytes a client is sent come from, and how many
  they are
-/

namespace LearnUv.PingPong

open DeferredWrites

/-! ## One client -/

namespace Client

/-- As many bytes are written for the client as were read from it. -/
structure Measured (c : Client) : Prop where
  total : c.isOpen = true → c.queue.total = c.received.length
  out_le : c.queue.out.length ≤ c.received.length

variable {c : Client}

theorem measured_accepted : accepted.Measured where
  total := fun _ => rfl
  out_le := Nat.le_refl 0

theorem Measured.flush (h : c.Measured) {memory : List UInt8}
    (hwithin : Within memory.length c.queue) (hopen : c.isOpen = true) (k : ℕ) :
    Client.Measured { c with queue := c.queue.flush memory k } := by
  have htotal := (hwithin.total_flush le_rfl k).trans (h.total hopen)
  refine ⟨fun _ => htotal, ?_⟩
  rw [Transport.total] at htotal
  exact Nat.le.intro htotal

/-- A read of the client, and what `on_read_client` writes for it. -/
theorem Measured.read (h : c.Measured) (hopen : c.isOpen = true) {nread : ℤ}
    (hlong : nread ≤ c.unread.length) (hlt : nread < 2 ^ 31) :
    ((c.read nread).react (onReadClient nread)).Measured := by
  have hle : c.queue.out.length ≤ (c.received ++ c.unread.take nread.toNat).length := by
    rw [List.length_append]
    exact Nat.le_add_right_of_le h.out_le
  rcases lt_trichotomy nread 0 with hneg | hzero | hpos
  · rw [onReadClient, if_pos hneg]
    exact ⟨fun hclosed => (by cases hclosed), hle⟩
  · subst hzero
    refine ⟨fun _ => ?_, hle⟩
    show c.queue.total = (c.received ++ c.unread.take 0).length
    rw [List.take_zero, List.append_nil, h.total hopen]
  · obtain ⟨ub, hreaction, hub⟩ := onReadClient_of_pos hpos hlt
    rw [hreaction, react, hub]
    refine ⟨fun _ => ?_, hle⟩
    show (c.queue.submit nread.toNat).total = (c.received ++ c.unread.take nread.toNat).length
    rw [Transport.total_submit, h.total hopen, List.length_append, List.length_take,
      Nat.min_eq_left (by omega)]

/-- A read writes nothing else than what it has filled. -/
theorem within_read {size : ℕ} (h : Within size c.queue) {nread : ℤ} (hlt : nread < 2 ^ 31) :
    Within (max size nread.toNat) ((c.read nread).react (onReadClient nread)).queue := by
  have hmono := h.mono (Nat.le_max_left size nread.toNat)
  rcases lt_trichotomy nread 0 with hneg | hzero | hpos
  · rw [onReadClient, if_pos hneg]
    exact List.forall_mem_nil _
  · subst hzero
    exact hmono
  · obtain ⟨ub, hreaction, hub⟩ := onReadClient_of_pos hpos hlt
    rw [hreaction, react, hub]
    exact hmono.submit (Nat.le_max_right _ _)

@[simp] theorem received_react (c : Client) (reaction : Reaction) :
    (c.react reaction).received = c.received := by
  cases reaction with
  | nothing => rfl
  | close => rfl
  | write ub => rfl

@[simp] theorem out_react (c : Client) (reaction : Reaction) :
    (c.react reaction).queue.out = c.queue.out := by
  cases reaction with
  | nothing => rfl
  | close => rfl
  | write ub => rfl

end Client

/-! ## All clients -/

namespace Server

variable {inputBufSize : Int32}

/-- The byte was read from some client. -/
def Received (s : Server inputBufSize) (b : UInt8) : Prop :=
  ∃ i c, s.client i = some c ∧ b ∈ c.received

/-- Reads have filled the first `filled` bytes of `msgBuf`, and nothing else is written. -/
structure Sourced (s : Server inputBufSize) (filled : ℕ) : Prop where
  filled_le : filled ≤ s.msgBuf.bytes.length
  memory : ∀ i < filled, ∀ b, s.msgBuf.bytes[i]? = some b → s.Received b
  within : ∀ i c, s.client i = some c → Within filled c.queue
  out : ∀ i c, s.client i = some c → ∀ b ∈ c.queue.out, s.Received b
  measured : ∀ i c, s.client i = some c → c.Measured

theorem sourced_start (msgBuf : CharArray (intLen inputBufSize)) :
    (start msgBuf).Sourced 0 where
  filled_le := Nat.zero_le _
  memory := fun i hi => absurd hi (Nat.not_lt_zero i)
  within := fun i c hc => by cases hc
  out := fun i c hc => by cases hc
  measured := fun i c hc => by cases hc

/-- What was read stays read. -/
theorem Received.put {s : Server inputBufSize} {b : UInt8} (h : s.Received b) {i : ℕ}
    {c c' : Client} (hc : s.client i = some c) (hkeep : c.received ⊆ c'.received)
    (msgBuf : CharArray (intLen inputBufSize)) :
    ({ s with msgBuf }.put i (some c')).Received b := by
  obtain ⟨j, d, hd, hb⟩ := h
  rcases eq_or_ne j i with rfl | hne
  · obtain rfl : d = c := Option.some.inj (hd.symm.trans hc)
    exact ⟨j, c', client_put_self _ _ _, hkeep hb⟩
  · exact ⟨j, d, (client_put_of_ne _ hne _).trans hd, hb⟩

namespace Sourced

variable {s t : Server inputBufSize} {filled : ℕ}

/-- One client has changed, and perhaps `msgBuf`. -/
theorem put (h : s.Sourced filled) {i : ℕ} {c : Client} (hc : s.client i = some c)
    (c' : Client) (hkeep : c.received ⊆ c'.received) {msgBuf : CharArray (intLen inputBufSize)}
    {filled' : ℕ} (hmore : filled ≤ filled') (hle : filled' ≤ msgBuf.bytes.length)
    (hmemory : ∀ place < filled', ∀ b, msgBuf.bytes[place]? = some b →
      s.Received b ∨ b ∈ c'.received)
    (hwithin : Within filled' c'.queue)
    (hout : ∀ b ∈ c'.queue.out, s.Received b) (hmeasured : c'.Measured) :
    ({ s with msgBuf }.put i (some c')).Sourced filled' := by
  have hself : ∀ b ∈ c'.received, ({ s with msgBuf }.put i (some c')).Received b :=
    fun b hb => ⟨i, c', client_put_self _ _ _, hb⟩
  refine ⟨hle, ?_, ?_, ?_, ?_⟩
  · intro place hplace b hb
    rcases hmemory place hplace b hb with hold | hnew
    · exact hold.put hc hkeep msgBuf
    · exact hself b hnew
  · intro j d hd
    rcases eq_or_ne j i with rfl | hne
    · rw [client_put_self] at hd
      cases hd
      exact hwithin
    · rw [client_put_of_ne _ hne] at hd
      exact (h.within j d hd).mono hmore
  · intro j d hd b hb
    rcases eq_or_ne j i with rfl | hne
    · rw [client_put_self] at hd
      cases hd
      exact (hout b hb).put hc hkeep msgBuf
    · rw [client_put_of_ne _ hne] at hd
      exact (h.out j d hd b hb).put hc hkeep msgBuf
  · intro j d hd
    rcases eq_or_ne j i with rfl | hne
    · rw [client_put_self] at hd
      cases hd
      exact hmeasured
    · rw [client_put_of_ne _ hne] at hd
      exact h.measured j d hd

/-- A connection that was not there before. -/
theorem connection (h : s.Sourced filled) {i : ℕ} (hnone : s.client i = none)
    {reading : Bool} : (s.put i (if reading then some .accepted else none)).Sourced filled := by
  have hold : ∀ b, s.Received b →
      (s.put i (if reading then some .accepted else none)).Received b := by
    rintro b ⟨j, d, hd, hb⟩
    have hne : j ≠ i := by
      rintro rfl
      rw [hnone] at hd
      cases hd
    exact ⟨j, d, (client_put_of_ne _ hne _).trans hd, hb⟩
  -- the new client has neither been read from nor written to
  have hcases : ∀ j d, (s.put i (if reading then some .accepted else none)).client j = some d →
      d = .accepted ∨ s.client j = some d := by
    intro j d hd
    rcases eq_or_ne j i with rfl | hne
    · rw [client_put_self] at hd
      split at hd
      · cases hd
        exact Or.inl rfl
      · cases hd
    · rw [client_put_of_ne _ hne] at hd
      exact Or.inr hd
  refine ⟨h.filled_le, fun place hplace b hb => hold b (h.memory place hplace b hb), ?_, ?_, ?_⟩
  · intro j d hd
    rcases hcases j d hd with rfl | hd
    · exact within_idle filled
    · exact h.within j d hd
  · intro j d hd b hb
    rcases hcases j d hd with rfl | hd
    · cases hb
    · exact hold b (h.out j d hd b hb)
  · intro j d hd
    rcases hcases j d hd with rfl | hd
    · exact Client.measured_accepted
    · exact h.measured j d hd

/-- A read fills the front of `msgBuf`. -/
theorem read (h : s.Sourced filled) {i : ℕ} {nread : ℤ}
    (henabled : s.Enabled (i, .read nread)) (hstep : s.step (i, .read nread) = .ok t) :
    t.Sourced (max filled nread.toNat) := by
  obtain ⟨c, hc, hopen, hlong, -, hroom⟩ := id henabled
  obtain ⟨c', msgBuf, hc', -, hlt, hstep', hbytes, -⟩ := step_read henabled
  obtain rfl : c' = c := Option.some.inj (hc'.symm.trans hc)
  obtain rfl := AbortingRun.ok_unique hstep' hstep
  have hsize : (c'.unread.take nread.toNat).length = nread.toNat := by
    rw [List.length_take]
    omega
  have hfilled := h.filled_le
  have hlen := msgBuf.length_eq
  have hlen' := s.msgBuf.length_eq
  refine h.put hc _ ?_ (Nat.le_max_left _ _) (by omega) ?_
    (Client.within_read (h.within i c' hc) hlt) ?_ ((h.measured i c' hc).read hopen hlong hlt)
  · rw [Client.received_react]
    exact List.subset_append_left _ _
  · intro place hplace b hb
    rw [hbytes, getElem?_overwrite_zero, hsize] at hb
    split at hb
    · refine Or.inr ?_
      rw [Client.received_react]
      exact List.mem_append_right _ (List.mem_iff_getElem?.mpr ⟨place, hb⟩)
    · exact Or.inl (h.memory place (by omega) b hb)
  · intro b hb
    rw [Client.out_react] at hb
    exact h.out i c' hc b hb

/-- **The step.** -/
theorem step (h : s.Sourced filled) {occurrence : ℕ × Event} (henabled : s.Enabled occurrence)
    (hstep : s.step occurrence = .ok t) : ∃ filled', t.Sourced filled' := by
  obtain ⟨i, event⟩ := occurrence
  cases event with
  | connection status accepted started =>
      obtain ⟨reading, -, ht⟩ := AbortingRun.bind_eq_ok.mp hstep
      cases ht
      exact ⟨filled, h.connection henabled⟩
  | sends data =>
      obtain ⟨c, hc⟩ := henabled
      simp only [Server.step, hc] at hstep
      cases hstep
      have hmeasured := h.measured i c hc
      exact ⟨filled, h.put hc { c with unread := c.unread ++ data } (List.Subset.refl _) le_rfl
        h.filled_le (fun place hplace b hb => Or.inl (h.memory place hplace b hb))
        (h.within i c hc) (h.out i c hc) ⟨hmeasured.total, hmeasured.out_le⟩⟩
  | read nread => exact ⟨_, h.read henabled hstep⟩
  | flush k =>
      obtain ⟨c, hc, hopen⟩ := henabled
      simp only [Server.step, hc] at hstep
      cases hstep
      have hwithin := h.within i c hc
      refine ⟨filled, h.put hc { c with queue := c.queue.flush s.msgBuf.bytes k }
        (List.Subset.refl _) le_rfl h.filled_le
        (fun place hplace b hb => Or.inl (h.memory place hplace b hb))
        (hwithin.flush _ k) ?_ ((h.measured i c hc).flush (hwithin.mono h.filled_le) hopen k)⟩
      intro b hb
      rcases hwithin.mem_out_flush hb with hold | ⟨place, hplace, hb⟩
      · exact h.out i c hc b hold
      · exact h.memory place hplace b hb

end Sourced

/-- **Where the bytes come from that a client is sent, and how many they are**, in every run:
each of them was read from some client, so none was in `msgBuf` before; there are no more
than were read from this client; and exactly as many when it is open and nothing is
queued. -/
theorem received_of_reaches {msgBuf : CharArray (intLen inputBufSize)}
    {history : List (ℕ × Event)} {s : Server inputBufSize} (hreaches : Reaches msgBuf history s)
    {i : ℕ} {c : Client} (hc : s.client i = some c) :
    (∀ b ∈ c.queue.out, ∃ j d, s.client j = some d ∧ b ∈ d.received) ∧
      c.queue.out.length ≤ c.received.length ∧
      (c.isOpen = true → c.queue.pending = [] → c.queue.out.length = c.received.length) := by
  obtain ⟨filled, hsourced⟩ : ∃ filled, s.Sourced filled :=
    hreaches.invariant (P := fun s => ∃ filled, s.Sourced filled) ⟨0, sourced_start msgBuf⟩
      fun s event t hs henabled hstep => by
        obtain ⟨filled, hs⟩ := hs
        exact hs.step henabled hstep
  have hmeasured := hsourced.measured i c hc
  refine ⟨hsourced.out i c hc, hmeasured.out_le, ?_⟩
  intro hopen hidle
  have htotal := hmeasured.total hopen
  rw [Transport.total, hidle] at htotal
  exact htotal

/-- A byte of another client. -/
theorem received_of_reaches_crossed : ∃ (s : Server 4) (c : Client),
    Reaches (CharArray.zeros (intLen 4)) crossed s ∧ s.client 0 = some c ∧
      c.queue.out = [2] ∧ c.received = [1] ∧
        ∀ b ∈ c.queue.out, ∃ j d, s.client j = some d ∧ b ∈ d.received := by
  have hrun : ((AbortingRun.runEnabled step Enabled (start (CharArray.zeros (intLen 4))) crossed).map
      fun s : Server 4 => (s.client 0).map fun c => (c.queue.out, c.received)) =
        some (some ([2], [1])) := by
    decide +kernel
  obtain ⟨s, hs, hclient⟩ := Option.map_eq_some_iff.mp hrun
  obtain ⟨c, hc, hbytes⟩ := Option.map_eq_some_iff.mp hclient
  have hreach : Reaches (CharArray.zeros (intLen 4)) crossed s :=
    AbortingRun.Reaches.start.of_runEnabled hs
  exact ⟨s, c, hreach, hc, congrArg Prod.fst hbytes, congrArg Prod.snd hbytes,
    (received_of_reaches hreach hc).1⟩

end Server

end LearnUv.PingPong
