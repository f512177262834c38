import LearnUv.Common.Memory
import LearnUv.Library.DeferredWrites

/-!
# The server with a thread for each connection

`multi_thread_server.cpp` starts a thread for a connection and waits for it, so no two of
them run at a time.  Every thread reads into the one `globalBuf` and answers each read with
the whole of it.  A client is therefore sent bytes that earlier clients have sent, never
those of a later one.

libuv copies out what is written in order and in pieces of any size, and it copies out
nothing any more once a write has failed.  The loop of a thread ends when nothing is read
and no write is left.

## Main Definitions

* `onNewConnection`, `onRead` — the callbacks
* `Child`, `ThreadServer` — the connection of a thread, and the program
* `ThreadServer.Reaches` — the runs
* `Known` — a byte has been read to a place in the buffer

## Main Results

* `ThreadServer.told_of_reaches` — what a client is sent comes from it and its
  predecessors, and how much that is
-/

namespace LearnUv.MultiThread

open DeferredWrites

/-- `sizeof(globalBuf)`. -/
def globalBufSize : ℕ := 8192

/-- The allocation callback. -/
def allocBuffer : UvBuf := uvBufInit (UInt64.ofNat globalBufSize)

/-- `on_new_connection`: whether a thread is started. -/
def onNewConnection (status accepted : Int32) : Bool :=
  if status < 0 then false
  else if accepted < 0 then false
  else true

/-- The read callback: what it writes.  `%s` prints the buffer up to its first NUL. -/
def onRead (globalBuf : CharArray globalBufSize) (nread : ℤ) (buf : UvBuf) :
    Exec (Option UvBuf) :=
  if nread < 0 then return none
  else do
    let _ ← strlen globalBuf.bytes
    return some buf

/-- The connection of a thread. -/
structure Child where
  /-- What each of its reads has put into the buffer. -/
  reads : List (List UInt8)
  reading : Bool
  /-- What is written to the client. -/
  queue : Transport UInt8
  /-- A write has failed. -/
  broken : Bool

namespace Child

/-- `uv_tcp_open` and `uv_read_start`, which have to succeed for anything to be read. -/
def opened (started : Bool) : Child := ⟨[], started, .idle, false⟩

/-- What libuv does for the callback.  It stops reading when it reports an error. -/
def react (c : Child) (data : List UInt8) : Option UvBuf → Child
  | none => { c with reading := false }
  | some ub =>
      { c with reads := c.reads ++ [data], queue := c.queue.submit ub.len.toNat }

/-- `uv_run` of the thread returns. -/
def Done (c : Child) : Prop := c.reading = false ∧ c.queue.pending = []

instance (c : Child) : Decidable c.Done := inferInstanceAs (Decidable (_ ∧ _))

end Child

/-- The program.  `on_new_connection` does not return before the loop of `child` has. -/
structure ThreadServer where
  globalBuf : CharArray globalBufSize
  /-- The threads that have been joined, in their order. -/
  joined : List Child
  child : Option Child

namespace ThreadServer

/-- What happens to the program. -/
inductive Event
  /-- `on_new_connection`. -/
  | connection (status accepted : Int32) (started : Bool)
  /-- The read callback, after libuv has put `data` into the buffer. -/
  | read (nread : ℤ) (data : List UInt8)
  /-- At most `k` bytes of the oldest write are copied out. -/
  | flush (k : ℕ)
  /-- The oldest write fails. -/
  | writeError
  /-- `t1.join` returns. -/
  | join
  deriving DecidableEq, Repr

/-- No connection yet. -/
def start : ThreadServer := ⟨.zeros globalBufSize, [], none⟩

/-- The clients, in the order of their connections. -/
def clients (s : ThreadServer) : List Child := s.joined ++ s.child.toList

/-- One event. -/
def step (s : ThreadServer) (event : Event) : Exec ThreadServer :=
  match s.child, event with
  | _, .connection status accepted started =>
      return { s with
        child := if onNewConnection status accepted then some (.opened started) else none }
  | none, _ => return s
  | some c, .read nread data => do
      let globalBuf ← s.globalBuf.store 0 data
      let written ← onRead globalBuf nread allocBuffer
      return { s with globalBuf, child := some (c.react data written) }
  | some c, .flush k =>
      return { s with child := some { c with queue := c.queue.flush s.globalBuf.bytes k } }
  | some c, .writeError =>
      return { s with
        child := some { c with queue.pending := c.queue.pending.tail, broken := true } }
  | some c, .join => return { s with joined := s.joined ++ [c], child := none }

/-- The main thread waits for a thread that runs; libuv reads no more than there is room
for, and it stops with the first error. -/
def Enabled (s : ThreadServer) : Event → Prop
  | .connection _ _ _ => s.child = none
  | .read nread data => ∃ c, s.child = some c ∧ c.reading = true ∧
      data.length = nread.toNat ∧ nread ≤ allocBuffer.len.toNat
  | .flush _ => ∃ c, s.child = some c ∧ c.broken = false
  | .writeError => ∃ c, s.child = some c ∧ c.queue.pending ≠ []
  | .join => ∃ c, s.child = some c ∧ c.Done

/-- Whether something holds of the connection of the thread that runs. -/
def decideChild (s : ThreadServer) (p : Child → Prop) [DecidablePred p] :
    Decidable (∃ c, s.child = some c ∧ p c) :=
  match h : s.child with
  | none => .isFalse (by simp)
  | some c => decidable_of_iff (p c) (by simp)

instance decidableEnabled (s : ThreadServer) (event : Event) : Decidable (s.Enabled event) :=
  match event with
  | .connection _ _ _ => decidable_of_iff (_ = true) Option.isNone_iff_eq_none
  | .read nread data => decideChild s fun c => c.reading = true ∧
      data.length = nread.toNat ∧ nread ≤ allocBuffer.len.toNat
  | .flush _ => decideChild s fun c => c.broken = false
  | .writeError => decideChild s fun c => c.queue.pending ≠ []
  | .join => decideChild s Child.Done

/-- The states that are reached from the start, with what has happened. -/
def Reaches (history : List Event) (s : ThreadServer) : Prop :=
  AbortingRun.Reaches step Enabled start history s

end ThreadServer

/-! ## Where bytes come from -/

/-- The byte stands at this place of one of the reads, or has never been written. -/
def Known (reads : List (List UInt8)) (place : ℕ) (b : UInt8) : Prop :=
  b = 0 ∨ ∃ data ∈ reads, data[place]? = some b

theorem Known.mono {reads reads' : List (List UInt8)} {place : ℕ} {b : UInt8}
    (h : Known reads place b) (hsub : reads ⊆ reads') : Known reads' place b := by
  rcases h with hzero | ⟨data, hmem, hdata⟩
  · exact Or.inl hzero
  · exact Or.inr ⟨data, hsub hmem, hdata⟩

/-- All the buffer holds has been read. -/
def Filled (globalBuf : CharArray globalBufSize) (reads : List (List UInt8)) : Prop :=
  ∀ place b, globalBuf.bytes[place]? = some b → Known reads place b

theorem filled_zeros : Filled (.zeros globalBufSize) [] := by
  intro place b hb
  obtain ⟨hlt, hget⟩ := List.getElem?_eq_some_iff.mp hb
  rw [← hget]
  exact Or.inl (List.getElem_replicate _)

theorem Filled.mono {globalBuf : CharArray globalBufSize} {reads reads' : List (List UInt8)}
    (h : Filled globalBuf reads) (hsub : reads ⊆ reads') : Filled globalBuf reads' :=
  fun place b hb => (h place b hb).mono hsub

/-- A read keeps what it does not reach. -/
theorem Filled.store {globalBuf globalBuf' : CharArray globalBufSize}
    {reads : List (List UInt8)} (h : Filled globalBuf reads) {data : List UInt8}
    (hstore : globalBuf.store 0 data = .ok globalBuf') :
    Filled globalBuf' (reads ++ [data]) := by
  have hbytes : globalBuf'.bytes = overwrite globalBuf.bytes 0 data := by
    rw [CharArray.store] at hstore
    split at hstore
    · cases hstore
      rfl
    · cases hstore
  intro place b hb
  rw [hbytes, getElem?_overwrite_zero] at hb
  split at hb
  · exact Or.inr ⟨data, List.mem_append_right _ List.mem_cons_self, hb⟩
  · exact (h place b hb).mono (List.subset_append_left _ _)

/-! ## One client -/

/-- What a client has been sent, when `reads` are its own reads and those before it. -/
structure Child.Told (reads : List (List UInt8)) (c : Child) : Prop where
  known : ∀ (i : ℕ) (b : UInt8), c.queue.out[i]? = some b → Known reads (i % globalBufSize) b
  whole : c.broken = false → Whole globalBufSize c.queue
  total : c.broken = false → c.queue.total = globalBufSize * c.reads.length
  total_le : c.queue.total ≤ globalBufSize * c.reads.length

namespace Child

variable {reads : List (List UInt8)} {c : Child}

theorem told_opened (reads : List (List UInt8)) (started : Bool) :
    (opened started).Told reads where
  known := fun i b hb => by cases hb
  whole := fun _ => whole_idle globalBufSize
  total := fun _ => rfl
  total_le := Nat.le_refl 0

theorem Told.mono (h : c.Told reads) {reads' : List (List UInt8)} (hsub : reads ⊆ reads') :
    c.Told reads' where
  known := fun i b hb => (h.known i b hb).mono hsub
  whole := h.whole
  total := h.total
  total_le := h.total_le

theorem allocBuffer_len : allocBuffer.len.toNat = globalBufSize := by decide

/-- A read is answered by the whole buffer. -/
theorem Told.read (h : c.Told reads) (data : List UInt8) :
    (c.react data (some allocBuffer)).Told (reads ++ [data]) := by
  have hreact : c.react data (some allocBuffer) =
      { c with reads := c.reads ++ [data], queue := c.queue.submit globalBufSize } := by
    rw [react, allocBuffer_len]
  have hsize : globalBufSize * (c.reads ++ [data]).length =
      globalBufSize * c.reads.length + globalBufSize := by
    rw [List.length_append, List.length_singleton, Nat.mul_succ]
  rw [hreact]
  refine ⟨?_, ?_, ?_, ?_⟩
  · exact fun i b hb => (h.known i b hb).mono (List.subset_append_left _ _)
  · exact fun hunbroken => (h.whole hunbroken).submit (by decide)
  · intro hunbroken
    show (c.queue.submit globalBufSize).total = globalBufSize * (c.reads ++ [data]).length
    rw [Transport.total_submit, h.total hunbroken, hsize]
  · show (c.queue.submit globalBufSize).total ≤ globalBufSize * (c.reads ++ [data]).length
    rw [Transport.total_submit, hsize]
    exact Nat.add_le_add_right h.total_le _

/-- What is copied out is what the buffer holds then. -/
theorem Told.flush (h : c.Told reads) (hunbroken : c.broken = false)
    {globalBuf : CharArray globalBufSize} (hfilled : Filled globalBuf reads) (k : ℕ) :
    Child.Told reads { c with queue := c.queue.flush globalBuf.bytes k } := by
  have hwhole := h.whole hunbroken
  have htotal := hwhole.within.total_flush globalBuf.length_eq.ge k
  refine ⟨?_, ?_, ?_, ?_⟩
  · intro i b hb
    rcases hwhole.getElem?_flush globalBuf.length_eq hb with hold | hnow
    · exact h.known i b hold
    · exact hfilled _ b hnow
  · exact fun _ => hwhole.flush globalBuf.length_eq k
  · exact fun _ => htotal.trans (h.total hunbroken)
  · exact htotal.trans_le h.total_le

theorem sum_tail_le (lengths : List ℕ) : lengths.tail.sum ≤ lengths.sum := by
  cases lengths with
  | nil => exact Nat.le_refl _
  | cons len rest =>
      rw [List.tail_cons, List.sum_cons]
      exact Nat.le_add_left _ _

/-- A write that fails takes what was left of it. -/
theorem Told.writeError (h : c.Told reads) :
    Child.Told reads
      { c with queue.pending := c.queue.pending.tail, broken := true } where
  known := h.known
  whole := fun hunbroken => by cases hunbroken
  total := fun hunbroken => by cases hunbroken
  total_le := by
    refine Nat.le_trans ?_ h.total_le
    show c.queue.out.length + (c.queue.pending.tail.map Prod.snd).sum ≤
      c.queue.out.length + (c.queue.pending.map Prod.snd).sum
    rw [List.map_tail]
    exact Nat.add_le_add_left (sum_tail_le _) _

end Child

/-! ## All clients -/

namespace ThreadServer

variable {s t : ThreadServer} {c : Child}

/-- The reads of all clients of a list. -/
def allReads (clients : List Child) : List (List UInt8) := clients.flatMap Child.reads

/-- Each client has been sent what it and its predecessors have sent. -/
def Chained (clients : List Child) : Prop :=
  ∀ before c after, clients = before ++ c :: after → c.Told (allReads (before ++ [c]))

theorem chained_concat {clients : List Child} (hbefore : Chained clients)
    (hlast : c.Told (allReads (clients ++ [c]))) : Chained (clients ++ [c]) := by
  intro before d after heq
  rcases List.eq_nil_or_concat after with rfl | ⟨after, last, rfl⟩
  · obtain ⟨rfl, hcons⟩ := List.append_inj' heq rfl
    cases hcons
    exact hlast
  · rw [List.concat_eq_append, ← List.cons_append, ← List.append_assoc] at heq
    exact hbefore before d after (List.append_inj' heq rfl).1

theorem Chained.of_concat {clients : List Child} (h : Chained (clients ++ [c])) :
    Chained clients := by
  rintro before d after rfl
  exact h before d (after ++ [c]) (List.append_assoc before (d :: after) [c])

/-- What holds of the program between two events. -/
structure Sound (s : ThreadServer) : Prop where
  filled : Filled s.globalBuf (allReads s.clients)
  chained : Chained s.clients
  done : ∀ c ∈ s.joined, c.Done

theorem sound_start : start.Sound where
  filled := filled_zeros
  chained := by
    intro before c after heq
    exact absurd heq.symm (by simp [start, clients])
  done := List.forall_mem_nil _

/-- The client whose thread runs. -/
theorem Sound.told (h : s.Sound) (hc : s.child = some c) :
    c.Told (allReads (s.joined ++ [c])) := by
  refine h.chained s.joined c [] ?_
  rw [clients, hc, Option.toList_some]

/-- The client whose thread runs has changed, and perhaps the buffer. -/
theorem Sound.put (h : s.Sound) (hc : s.child = some c) {d : Child}
    {globalBuf : CharArray globalBufSize}
    (hfilled : Filled globalBuf (allReads (s.joined ++ [d])))
    (htold : d.Told (allReads (s.joined ++ [d]))) :
    Sound { s with globalBuf, child := some d } where
  filled := hfilled
  chained := by
    have hbefore := h.chained
    rw [clients, hc, Option.toList_some] at hbefore
    exact chained_concat hbefore.of_concat htold
  done := h.done

theorem allReads_concat (joined : List Child) (c : Child) :
    allReads (joined ++ [c]) = allReads joined ++ c.reads := by
  simp [allReads]

/-- The client whose thread runs has changed, but has read nothing. -/
theorem Sound.keep (h : s.Sound) (hc : s.child = some c) {d : Child}
    (hreads : d.reads = c.reads)
    (htold : c.Told (allReads s.clients) → d.Told (allReads s.clients)) :
    Sound { s with child := some d } := by
  have hclients : s.clients = s.joined ++ [c] := by
    rw [clients, hc, Option.toList_some]
  have hsame : allReads (s.joined ++ [d]) = allReads s.clients := by
    rw [hclients, allReads_concat, allReads_concat, hreads]
  have hbefore := h.told hc
  rw [← hclients] at hbefore
  refine h.put hc ?_ ?_
  · rw [hsame]
    exact h.filled
  · rw [hsame]
    exact htold hbefore

/-- **The step.** -/
theorem Sound.step (h : s.Sound) {event : Event} (henabled : s.Enabled event)
    (hstep : s.step event = .ok t) : t.Sound := by
  have hfilled := h.filled
  have hchained := h.chained
  cases event with
  | connection status accepted started =>
      have hidle : s.child = none := henabled
      simp only [clients, hidle, Option.toList_none, List.append_nil] at hfilled hchained
      simp only [ThreadServer.step] at hstep
      cases hstep
      split
      · refine ⟨?_, chained_concat hchained (Child.told_opened _ started), h.done⟩
        show Filled s.globalBuf (allReads (s.joined ++ [Child.opened started]))
        rw [allReads_concat]
        exact hfilled.mono (List.subset_append_left _ _)
      · refine ⟨?_, ?_, h.done⟩
        · simpa [clients] using hfilled
        · simpa [clients] using hchained
  | read nread data =>
      obtain ⟨c, hc, -, hlen, -⟩ := henabled
      simp only [ThreadServer.step, hc] at hstep
      obtain ⟨globalBuf, hstore, hstep⟩ := AbortingRun.bind_eq_ok.mp hstep
      obtain ⟨written, hread, ht⟩ := AbortingRun.bind_eq_ok.mp hstep
      cases ht
      rw [onRead] at hread
      split at hread
      · next hneg =>
          -- nothing was put into the buffer
          cases hread
          have hnil : data = [] := List.length_eq_zero_iff.mp (by omega)
          rw [hnil, CharArray.store_zero_nil] at hstore
          cases hstore
          exact h.keep hc rfl fun htold =>
            ⟨htold.known, htold.whole, htold.total, htold.total_le⟩
      · obtain ⟨len, -, hread⟩ := AbortingRun.bind_eq_ok.mp hread
        cases hread
        have htold := h.told hc
        rw [clients, hc, Option.toList_some] at hfilled
        have hreads : allReads (s.joined ++ [c.react data (some allocBuffer)]) =
            allReads (s.joined ++ [c]) ++ [data] := by
          rw [allReads_concat, allReads_concat, List.append_assoc]
          rfl
        refine h.put hc ?_ ?_
        · rw [hreads]
          exact hfilled.store hstore
        · rw [hreads]
          exact htold.read data
  | flush k =>
      obtain ⟨c, hc, hunbroken⟩ := henabled
      simp only [ThreadServer.step, hc] at hstep
      cases hstep
      exact h.keep hc rfl fun htold => htold.flush hunbroken hfilled k
  | writeError =>
      obtain ⟨c, hc, -⟩ := henabled
      simp only [ThreadServer.step, hc] at hstep
      cases hstep
      exact h.keep hc rfl fun htold => htold.writeError
  | join =>
      obtain ⟨c, hc, hdone⟩ := henabled
      simp only [ThreadServer.step, hc] at hstep
      cases hstep
      have hclients : s.clients = s.joined ++ [c] := by
        rw [clients, hc, Option.toList_some]
      rw [hclients] at hfilled hchained
      refine ⟨?_, ?_, ?_⟩
      · simpa [clients] using hfilled
      · simpa [clients] using hchained
      · intro d hd
        rcases List.mem_append.mp hd with hold | hnew
        · exact h.done d hold
        · obtain rfl := List.mem_singleton.mp hnew
          exact hdone

/-- **What a client is sent.**  Every byte is one that it or a client before it has sent to
that place of the buffer, or a zero; and a client whose writes did not fail has been sent
the whole buffer for each of its reads when its thread has ended. -/
theorem told_of_reaches {history : List Event} (hreaches : Reaches history s) :
    (∀ before c after, s.clients = before ++ c :: after →
      ∀ (i : ℕ) (b : UInt8), c.queue.out[i]? = some b →
        Known (allReads (before ++ [c])) (i % globalBufSize) b) ∧
    (∀ c ∈ s.clients, c.queue.out.length ≤ globalBufSize * c.reads.length) ∧
    (∀ c ∈ s.joined, c.broken = false →
      c.queue.out.length = globalBufSize * c.reads.length) := by
  have hsound : s.Sound :=
    hreaches.invariant sound_start fun s event t h henabled hstep => h.step henabled hstep
  refine ⟨?_, ?_, ?_⟩
  · exact fun before c after heq => (hsound.chained before c after heq).known
  · intro c hc
    obtain ⟨before, after, heq⟩ := List.append_of_mem hc
    have hle := (hsound.chained before c after heq).total_le
    rw [Transport.total] at hle
    omega
  · intro c hc hunbroken
    obtain ⟨before, after, heq⟩ := List.append_of_mem (List.mem_append_left s.child.toList hc)
    have htotal := (hsound.chained before c after heq).total hunbroken
    rw [Transport.total, (hsound.done c hc).2] at htotal
    exact htotal

/-- The second client is sent what the first one has sent. -/
theorem told_of_reaches_second :
    ∃ history s first second, Reaches history s ∧ s.clients = [first, second] ∧
      first.reads = [[65]] ∧ second.reads = [[]] ∧ second.queue.out[0]? = some 65 ∧
        Known (allReads [first, second]) (0 % globalBufSize) 65 := by
  have hrun : ((AbortingRun.runEnabled step Enabled start
      [.connection 0 0 true, .read 1 [65], .flush globalBufSize, .read (-4095) [], .join,
        .connection 0 0 true, .read 0 [], .flush 1]).map fun s =>
      s.clients.map fun c => (c.reads, c.queue.out[0]?)) =
      some [([[65]], some 65), ([[]], some 65)] := by decide +kernel
  obtain ⟨s, hs, hclients⟩ := Option.map_eq_some_iff.mp hrun
  have hreaches : Reaches _ s := AbortingRun.Reaches.of_runEnabled .start hs
  have htwo : s.clients.length = 2 := by simpa using congrArg List.length hclients
  obtain ⟨first, second, hlist⟩ := List.length_eq_two.mp htwo
  rw [hlist] at hclients
  simp only [List.map_cons, List.map_nil, List.cons.injEq, Prod.mk.injEq, and_true] at hclients
  obtain ⟨⟨hfirst, -⟩, hsecond, hbyte⟩ := hclients
  exact ⟨_, s, first, second, hreaches, hlist, hfirst, hsecond, hbyte,
    (told_of_reaches hreaches).1 [first] second [] hlist 0 65 hbyte⟩

end ThreadServer

end LearnUv.MultiThread
