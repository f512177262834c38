import LearnUv.PingPong.Programs
import LearnUv.Library.DeferredWrites
import Mathlib.Logic.Function.Basic

/-!
# The server and all its clients

Every read goes into the one `msgBuf`, and what is written back is a range of it, which
libuv copies out later.  A client gets its own bytes as long as no read, of whichever
client, changes bytes that a write has still to copy.

All writes are accepted by libuv, which copies them out in order for each client, in pieces
of any size, and drops those of a client whose handle is closed.

## Main Definitions

* `Server` — `msgBuf`, and the clients with what is queued for them
* `Server.Echoes` — every client has been sent a prefix of what it has sent
* `Server.SparesQueued` — a read changes no byte that is still queued

## Main Results

* `Server.echoes_of_spares` — in a run whose reads all spare what is queued, clients get
  their own bytes
* `Server.intact_read_iff` — a read that does not leads to a state with wrong bytes queued
-/

namespace LearnUv.PingPong

open DeferredWrites

/-- A client of the server. -/
structure Client where
  /-- The bytes of the client that the server has read. -/
  received : List UInt8
  /-- The bytes the client has sent that the server has not read. -/
  unread : List UInt8
  /-- What is written to the client. -/
  queue : Transport UInt8
  isOpen : Bool

namespace Client

/-- A client that has sent nothing yet. -/
def accepted : Client := ⟨[], [], .idle, true⟩

/-- What the client has sent. -/
def sent (c : Client) : List UInt8 := c.received ++ c.unread

/-- What libuv does for the callback.  Closing the handle cancels what is queued. -/
def react (c : Client) : Reaction → Client
  | .nothing => c
  | .close => { c with isOpen := false, queue := { c.queue with pending := [] } }
  | .write ub => { c with queue := c.queue.submit ub.len.toNat }

/-- The next bytes of the client are read. -/
def read (c : Client) (nread : ℤ) : Client :=
  { c with
    received := c.received ++ c.unread.take nread.toNat
    unread := c.unread.drop nread.toNat }

end Client

/-- `server.cc` with its clients. -/
structure Server (inputBufSize : Int32) where
  /-- The memory of `msgBuf`. -/
  msgBuf : CharArray (intLen inputBufSize)
  client : ℕ → Option Client

namespace Server

variable {inputBufSize : Int32}

/-- What happens with one client. -/
inductive Event
  /-- `on_new_connection`. -/
  | connection (status accepted started : Int32)
  /-- The client sends. -/
  | sends (data : List UInt8)
  /-- `on_read_client`. -/
  | read (nread : ℤ)
  /-- At most `k` bytes of the oldest write are copied out. -/
  | flush (k : ℕ)
  deriving DecidableEq, Repr

/-- No client yet. -/
def start (msgBuf : CharArray (intLen inputBufSize)) : Server inputBufSize :=
  ⟨msgBuf, fun _ => none⟩

/-- The client is another one now. -/
def put (s : Server inputBufSize) (i : ℕ) (c : Option Client) : Server inputBufSize :=
  { s with client := Function.update s.client i c }

@[simp] theorem client_put_self (s : Server inputBufSize) (i : ℕ) (c : Option Client) :
    (s.put i c).client i = c := by simp [put]

@[simp] theorem client_put_of_ne (s : Server inputBufSize) {i j : ℕ} (h : j ≠ i)
    (c : Option Client) : (s.put i c).client j = s.client j := by simp [put, h]

@[simp] theorem msgBuf_put (s : Server inputBufSize) (i : ℕ) (c : Option Client) :
    (s.put i c).msgBuf = s.msgBuf := rfl

/-- One event. -/
def step (s : Server inputBufSize) : ℕ × Event → Exec (Server inputBufSize)
  | (i, .connection status accepted started) => do
      let reading ← onNewConnection status accepted started
      return s.put i (if reading then some .accepted else none)
  | (i, event) =>
      match s.client i with
      | none => return s
      | some c =>
          match event with
          | .connection _ _ _ => return s
          | .sends data => return s.put i (some { c with unread := c.unread ++ data })
          | .read nread => do
              let msgBuf ← s.msgBuf.store 0 (c.unread.take nread.toNat)
              return { s with msgBuf }.put i (some ((c.read nread).react (onReadClient nread)))
          | .flush k => return s.put i (some { c with queue := c.queue.flush s.msgBuf.bytes k })

/-- A read is of bytes the client has sent, and of no more than `msgBuf` holds; nothing is
read from a closed handle or written to it. -/
def Enabled (s : Server inputBufSize) : ℕ × Event → Prop
  | (i, .connection _ _ _) => s.client i = none
  | (i, .sends _) => ∃ c, s.client i = some c
  | (i, .read nread) => ∃ c, s.client i = some c ∧ c.isOpen = true ∧
      nread ≤ c.unread.length ∧ nread ≤ (allocBuffer inputBufSize).len.toNat ∧
        nread ≤ intLen inputBufSize
  | (i, .flush _) => ∃ c, s.client i = some c ∧ c.isOpen = true

/-- Whether something holds of the client with a number. -/
def decideClient (s : Server inputBufSize) (i : ℕ) (p : Client → Prop) [DecidablePred p] :
    Decidable (∃ c, s.client i = some c ∧ p c) :=
  match h : s.client i with
  | none => .isFalse (by simp)
  | some c => decidable_of_iff (p c) (by simp)

instance decidableEnabled (s : Server inputBufSize) (occurrence : ℕ × Event) :
    Decidable (s.Enabled occurrence) :=
  match occurrence with
  | (_, .connection _ _ _) => decidable_of_iff (_ = true) Option.isNone_iff_eq_none
  | (_, .sends _) => decidable_of_iff (_ = true) Option.isSome_iff_exists
  | (i, .read nread) => decideClient s i fun c => c.isOpen = true ∧
      nread ≤ c.unread.length ∧ nread ≤ (allocBuffer inputBufSize).len.toNat ∧
        nread ≤ intLen inputBufSize
  | (i, .flush _) => decideClient s i fun c => c.isOpen = true

/-- The states that are reached from the start, with what has happened. -/
def Reaches (msgBuf : CharArray (intLen inputBufSize)) (history : List (ℕ × Event))
    (s : Server inputBufSize) : Prop :=
  AbortingRun.Reaches step Enabled (start msgBuf) history s

/-- What every client has been sent is a prefix of what it has sent. -/
def Echoes (s : Server inputBufSize) : Prop :=
  ∀ i c, s.client i = some c → c.queue.out <+: c.sent

/-- A read changes no byte that a write to any client has still to copy. -/
def SparesQueued (s : Server inputBufSize) : ℕ × Event → Prop
  | (i, .read nread) => ∀ c, s.client i = some c → ∀ j d, s.client j = some d →
      Spares s.msgBuf.bytes (overwrite s.msgBuf.bytes 0 (c.unread.take nread.toNat))
        d.queue.pending
  | _ => True

end Server

/-! ## One client -/

namespace Client

/-- What has left and what is queued is what was read; of a closed handle nothing is
queued. -/
structure Intact (memory : List UInt8) (c : Client) : Prop where
  inOrder : c.isOpen = true → InOrder memory c.queue c.received
  cancelled : c.isOpen = false → c.queue.pending = []
  out_le : c.queue.out <+: c.received

variable {memory memory' : List UInt8} {c : Client}

theorem intact_accepted (memory : List UInt8) : accepted.Intact memory where
  inOrder := fun _ => inOrder_idle memory
  cancelled := fun _ => rfl
  out_le := List.nil_prefix

theorem Intact.out_prefix_sent (h : c.Intact memory) : c.queue.out <+: c.sent :=
  h.out_le.trans (List.prefix_append _ _)

/-- The memory may change where nothing is queued. -/
theorem Intact.spared (h : c.Intact memory) (hlen : memory'.length = memory.length)
    (hspares : Spares memory memory' c.queue.pending) : c.Intact memory' where
  inOrder := fun hopen => ((h.inOrder hopen).memory_iff hlen).mpr hspares
  cancelled := h.cancelled
  out_le := h.out_le

theorem Intact.flush (h : c.Intact memory) (hopen : c.isOpen = true) (k : ℕ) :
    Client.Intact memory { c with queue := c.queue.flush memory k } where
  inOrder := fun _ => (h.inOrder hopen).flush k
  cancelled := fun hclosed => absurd (hopen.symm.trans hclosed) (by decide)
  out_le := ((h.inOrder hopen).flush k).prefix_given

/-- What `on_read_client` writes for a read that brought something. -/
theorem onReadClient_of_pos {nread : ℤ} (hpos : 0 < nread) (hlt : nread < 2 ^ 31) :
    ∃ ub, onReadClient nread = .write ub ∧ ub.len.toNat = nread.toNat := by
  have hlen : (UInt64.ofNat nread.toNat).toNat = nread.toNat := by
    rw [UInt64.toNat_ofNat', Nat.mod_eq_of_lt (by omega)]
  refine ⟨uvBufInit (UInt64.ofNat nread.toNat), ?_, ?_⟩
  · rw [onReadClient, if_neg (by omega), if_neg (by omega)]
  · rw [uvBufInit_len (by omega), hlen]

/-- **A read** that spares what is queued is echoed. -/
theorem Intact.read (h : c.Intact memory) (hopen : c.isOpen = true) {nread : ℤ}
    (hlt : nread < 2 ^ 31) (hlen : memory'.length = memory.length)
    (hfront : memory'.take nread.toNat = c.unread.take nread.toNat)
    (hspares : Spares memory memory' c.queue.pending) :
    Client.Intact memory' ((c.read nread).react (onReadClient nread)) := by
  have hbefore := h.inOrder hopen
  rcases lt_trichotomy nread 0 with hneg | hzero | hpos
  · -- the handle is closed, and libuv drops what is queued for it
    rw [onReadClient, if_pos hneg]
    refine ⟨?_, fun _ => rfl, h.out_le.trans (List.prefix_append _ _)⟩
    intro hclosed
    cases hclosed
  · subst hzero
    have hsame : c.received ++ c.unread.take 0 = c.received := by
      rw [List.take_zero, List.append_nil]
    refine ⟨fun _ => ?_, fun hclosed => absurd (hopen.symm.trans hclosed) (by decide), ?_⟩
    · show InOrder memory' c.queue (c.received ++ c.unread.take 0)
      rw [hsame]
      exact (hbefore.memory_iff hlen).mpr hspares
    · show c.queue.out <+: c.received ++ c.unread.take 0
      rw [hsame]
      exact h.out_le
  · obtain ⟨ub, hreaction, hub⟩ := onReadClient_of_pos hpos hlt
    have hqueued : InOrder memory' (c.queue.submit nread.toNat)
        (c.received ++ c.unread.take nread.toNat) := by
      rw [← hfront]
      exact (hbefore.submit_iff hlen nread.toNat).mpr hspares
    rw [hreaction, react, hub]
    exact ⟨fun _ => hqueued, fun hclosed => absurd (hopen.symm.trans hclosed) (by decide),
      hqueued.prefix_given⟩

end Client

/-! ## All clients -/

namespace Server

variable {inputBufSize : Int32}

/-- Every client is intact. -/
def Intact (s : Server inputBufSize) : Prop :=
  ∀ i c, s.client i = some c → c.Intact s.msgBuf.bytes

theorem Intact.echoes {s : Server inputBufSize} (h : s.Intact) : s.Echoes :=
  fun i c hc => (h i c hc).out_prefix_sent

theorem intact_start (msgBuf : CharArray (intLen inputBufSize)) : (start msgBuf).Intact := by
  intro i c hc
  cases hc

/-- One client has changed, and perhaps `msgBuf`. -/
theorem Intact.put {s : Server inputBufSize} {msgBuf : CharArray (intLen inputBufSize)}
    {i : ℕ} {c : Client} (hself : c.Intact msgBuf.bytes)
    (hothers : ∀ j d, j ≠ i → s.client j = some d → d.Intact msgBuf.bytes) :
    ({ s with msgBuf }.put i (some c)).Intact := by
  intro j d hd
  rcases eq_or_ne j i with rfl | hne
  · rw [client_put_self] at hd
    cases hd
    exact hself
  · rw [client_put_of_ne _ hne] at hd
    exact hothers j d hne hd

/-- **A read of the server.** -/
theorem step_read {s : Server inputBufSize} {i : ℕ} {nread : ℤ}
    (henabled : s.Enabled (i, .read nread)) :
    ∃ c msgBuf, s.client i = some c ∧ c.isOpen = true ∧ nread < 2 ^ 31 ∧
      s.step (i, .read nread) =
        .ok ({ s with msgBuf }.put i (some ((c.read nread).react (onReadClient nread)))) ∧
      msgBuf.bytes = overwrite s.msgBuf.bytes 0 (c.unread.take nread.toNat) ∧
      msgBuf.bytes.take nread.toNat = c.unread.take nread.toNat := by
  obtain ⟨c, hc, hopen, hunread, -, hroom⟩ := henabled
  have hlt := intLen_lt inputBufSize
  have hdata : (c.unread.take nread.toNat).length = nread.toNat := by
    rw [List.length_take]
    omega
  have hfits : 0 + (c.unread.take nread.toNat).length ≤ intLen inputBufSize := by omega
  obtain ⟨msgBuf, hstore, hbytes⟩ := s.msgBuf.store_of_fits hfits
  refine ⟨c, msgBuf, hc, hopen, by omega, ?_, hbytes, ?_⟩
  · simp only [step, hc, hstore]
    rfl
  · have hfront := take_overwrite_zero s.msgBuf.bytes (c.unread.take nread.toNat)
    rwa [hdata, ← hbytes] at hfront

/-- **A step that spares what is queued** keeps every client intact. -/
theorem Intact.step {s t : Server inputBufSize} (h : s.Intact) {occurrence : ℕ × Event}
    (henabled : s.Enabled occurrence) (hspares : s.SparesQueued occurrence)
    (hstep : s.step occurrence = .ok t) : t.Intact := by
  obtain ⟨i, event⟩ := occurrence
  cases event with
  | connection status accepted started =>
      obtain ⟨reading, -, ht⟩ := AbortingRun.bind_eq_ok.mp hstep
      cases ht
      intro j d hd
      rcases eq_or_ne j i with rfl | hne
      · rw [client_put_self] at hd
        split at hd
        · cases hd
          exact Client.intact_accepted _
        · cases hd
      · rw [client_put_of_ne _ hne] at hd
        exact h j d hd
  | sends data =>
      obtain ⟨c, hc⟩ := henabled
      simp only [Server.step, hc] at hstep
      cases hstep
      have hold := h i c hc
      exact Intact.put ⟨hold.inOrder, hold.cancelled, hold.out_le⟩ fun j d _ hd => h j d hd
  | read nread =>
      obtain ⟨c, msgBuf, hc, hopen, hlt, hstep', hbytes, hfront⟩ := step_read henabled
      obtain rfl := AbortingRun.ok_unique hstep' hstep
      have hlen := msgBuf.length_bytes_eq s.msgBuf
      rw [SparesQueued] at hspares
      -- the read changes `msgBuf` for all clients, the one it is for included
      refine Intact.put ((h i c hc).read hopen hlt hlen hfront ?_) ?_
      · rw [hbytes]
        exact hspares c hc i c hc
      · intro j d _ hd
        refine (h j d hd).spared hlen ?_
        rw [hbytes]
        exact hspares c hc j d hd
  | flush k =>
      obtain ⟨c, hc, hopen⟩ := henabled
      simp only [Server.step, hc] at hstep
      cases hstep
      exact Intact.put ((h i c hc).flush hopen k) fun j d _ hd => h j d hd

/-- **Clients get their own bytes** in every run whose reads all spare what is queued. -/
theorem echoes_of_spares {msgBuf : CharArray (intLen inputBufSize)} {history : List (ℕ × Event)}
    {s : Server inputBufSize} (h : Reaches msgBuf history s)
    (hspares : AbortingRun.EachStep step SparesQueued (start msgBuf) history) : s.Echoes :=
  Intact.echoes (h.invariant_of_eachStep hspares (intact_start msgBuf)
    fun _ _ _ hs henabled hallowed hret => hs.step henabled hallowed hret)

/-- **The condition is exact for one read**: after one that does not meet it, what is queued
for some client is no longer what the client has sent. -/
theorem intact_read_iff {s t : Server inputBufSize} (h : s.Intact) {i : ℕ} {nread : ℤ}
    (henabled : s.Enabled (i, .read nread)) (hstep : s.step (i, .read nread) = .ok t)
    (hpos : 0 < nread) : t.Intact ↔ s.SparesQueued (i, .read nread) := by
  refine ⟨fun ht => ?_, fun hspares => h.step henabled hspares hstep⟩
  obtain ⟨c, msgBuf, hc, hopen, hlt, hstep', hbytes, hfront⟩ := step_read henabled
  obtain rfl := AbortingRun.ok_unique hstep' hstep
  have hlen := msgBuf.length_bytes_eq s.msgBuf
  intro c' hc' j d hd
  obtain rfl : c' = c := Option.some.inj (hc'.symm.trans hc)
  rw [← hbytes]
  rcases Bool.eq_false_or_eq_true d.isOpen with hd_open | hclosed
  · rcases eq_or_ne j i with rfl | hne
    · obtain rfl : d = c' := Option.some.inj (hd.symm.trans hc)
      obtain ⟨ub, hreaction, hub⟩ := Client.onReadClient_of_pos hpos hlt
      have hafter := (ht j _ (client_put_self _ _ _)).inOrder
      rw [hreaction, Client.react, hub] at hafter
      have hqueued := hafter hopen
      refine (((h j d hd).inOrder hopen).submit_iff hlen nread.toNat).mp ?_
      rw [hfront]
      exact hqueued
    · have hafter := ht j d (by rw [client_put_of_ne _ hne]; exact hd)
      exact (((h j d hd).inOrder hd_open).memory_iff hlen).mp (hafter.inOrder hd_open)
  · rw [(h j d hd).cancelled hclosed]
    intro range hrange
    cases hrange

/-- A read spares what is queued when nothing is. -/
theorem sparesQueued_of_idle {s : Server inputBufSize}
    (h : ∀ j d, s.client j = some d → d.queue.pending = []) (occurrence : ℕ × Event) :
    s.SparesQueued occurrence := by
  obtain ⟨i, event⟩ := occurrence
  cases event with
  | read nread =>
      intro c _ j d hd
      rw [h j d hd]
      intro range hrange
      cases hrange
  | _ => trivial

/-- One client, whose read is copied out before the next one. -/
def echoed : List (ℕ × Event) :=
  [(0, .connection 0 0 0), (0, .sends [1]), (0, .read 1), (0, .flush 1)]

theorem spares_echoed :
    AbortingRun.EachStep step SparesQueued (start (CharArray.zeros (intLen 4))) echoed := by
  refine ⟨trivial, fun s₁ h₁ => ⟨trivial, fun s₂ h₂ => ⟨?_, ?_⟩⟩⟩
  rotate_left
  · exact fun _ _ => ⟨trivial, fun _ _ => trivial⟩
  cases h₁
  cases h₂
  refine sparesQueued_of_idle ?_ _
  intro j d hd
  rcases eq_or_ne j 0 with rfl | hne
  · cases hd
    rfl
  · rw [client_put_of_ne _ hne, client_put_of_ne _ hne] at hd
    cases hd

theorem echoes_of_spares_echoed : ∃ s : Server 4,
    Reaches (CharArray.zeros (intLen 4)) echoed s ∧ s.Echoes := by
  have hrun : ((AbortingRun.runEnabled step Enabled (start (CharArray.zeros (intLen 4))) echoed).map
      fun s : Server 4 => (s.client 0).map fun c => c.queue.out) = some (some [1]) := by
    decide +kernel
  obtain ⟨s, hs, -⟩ := Option.map_eq_some_iff.mp hrun
  have hreach := AbortingRun.Reaches.start.of_runEnabled hs
  exact ⟨s, hreach, echoes_of_spares hreach spares_echoed⟩

/-- The reads of two clients, before anything is copied out. -/
def crossed : List (ℕ × Event) :=
  [(0, .connection 0 0 0), (1, .connection 0 0 0), (0, .sends [1]), (1, .sends [2]), (0, .read 1),
    (1, .read 1), (0, .flush 1)]

/-- Client 0 gets the byte of client 1. -/
theorem not_echoes_crossed : ∃ s : Server 4,
    Reaches (CharArray.zeros (intLen 4)) crossed s ∧ ¬s.Echoes := by
  have hrun : ((AbortingRun.runEnabled step Enabled (start (CharArray.zeros (intLen 4))) crossed).map
      fun s : Server 4 => (s.client 0).map fun c => (c.queue.out, c.sent)) =
        some (some ([2], [1])) := by
    decide +kernel
  obtain ⟨s, hs, hclient⟩ := Option.map_eq_some_iff.mp hrun
  obtain ⟨c, hc, hbytes⟩ := Option.map_eq_some_iff.mp hclient
  refine ⟨s, AbortingRun.Reaches.start.of_runEnabled hs, ?_⟩
  intro hechoes
  have hle := hechoes 0 c hc
  rw [show c.queue.out = [2] from congrArg Prod.fst hbytes,
    show c.sent = [1] from congrArg Prod.snd hbytes] at hle
  exact absurd hle (by decide)

end Server

end LearnUv.PingPong
