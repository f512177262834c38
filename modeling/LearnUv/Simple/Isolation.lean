import LearnUv.Simple.FileTransfer
import LearnUv.Library.Projection

/-!
# Transfers side by side

All reads of all clients go into one `buf`.  What libuv puts there for one client stays
until `on_read` copies it, unless the read of another client ends in between.

The run of all clients is compared with the run of the events of one of them, in which it is
alone.  In both the client has the same transfer, and alone it always finds its own bytes
(`Alike`); the two buffers may differ as long as the client does not look at them.  A step of
another client changes only the buffer, and a step of the client itself keeps the two alike
when it finds what was read for it.  When it does not, it hands on other bytes than it hands
on alone, which is the other direction (`Alike.shows`).

## Main Definitions

* `System.FindsOwn` — `on_read` finds what was read for its client
* `System.Alike` — a client does not notice the other ones

## Main Results

* `System.transfersIsolated_iff` — every client is handed what it is handed alone exactly when each
  `on_read` finds what was read for its client
-/

namespace LearnUv.FileTransfer

/-- What `on_read` does depends only on the part of the buffer that was read. -/
theorem onRead_congr {buf buf' tBuf : CharArray fileBuf} {outcome : ReadOutcome}
    (h : buf.bytes.take outcome.bytes.length = buf'.bytes.take outcome.bytes.length) :
    onRead buf tBuf outcome.result = onRead buf' tBuf outcome.result := by
  cases outcome with
  | failed error => rw [onRead_failed, onRead_failed]
  | read chunk =>
      by_cases hnil : chunk.bytes = []
      · rw [onRead_eof _ _ hnil, onRead_eof _ _ hnil]
      · rcases chunk.length_le.lt_or_eq with hfits | hfull
        · rw [onRead_chunk hnil hfits, onRead_chunk hnil hfits]
          rw [show buf.bytes.take chunk.bytes.length = buf'.bytes.take chunk.bytes.length from h]
        · rw [onRead_full hfull, onRead_full hfull]

namespace System

variable {file : List UInt8} {memory : CharArray fileBuf}

/-- What was read for the client is at the front of the buffer. -/
def Own (s : System) (i : ℕ) : Prop :=
  ∀ t outcome, s.transfer i = some t → t.pending = some (.fsReadDone outcome) →
    s.buf.bytes.take outcome.bytes.length = outcome.bytes

/-- `on_read` is called while what was read for its client is at the front of the
buffer. -/
def FindsOwn (s : System) : ℕ × Event → Prop
  | (i, .read _ _) => s.Own i
  | _ => True

/-- The client's part of the run has come as far, and finds its own bytes. -/
structure Alike (i : ℕ) (s u : System) : Prop where
  transfer_eq : s.transfer i = u.transfer i
  own : u.Own i

theorem alike_start (i : ℕ) : Alike i (start memory) (start memory) where
  transfer_eq := rfl
  own := by
    intro t outcome ht
    cases ht

/-- A request that was just started is not over. -/
theorem pending_react_ne {t : Transfer} {started : Int32} {actions : List Action}
    (outcome : ReadOutcome) :
    (t.react started actions).pending ≠ some (.fsReadDone outcome) := by
  intro h
  have hfound : actions.findSome? Action.request = some (.fsReadDone outcome) := by
    rw [Transfer.react] at h
    split at h
    · cases h
    · exact h
  obtain ⟨action, -, haction⟩ := List.exists_of_findSome?_eq_some hfound
  cases action <;> cases haction

/-- A step of a transfer depends on the buffer only if it calls `on_read`, and then only on
what was read. -/
theorem step_congr {t : Transfer} {buf buf' : CharArray fileBuf} {event : Event}
    (h : ∀ tBuf started outcome, event = .read tBuf started →
      t.pending = some (.fsReadDone outcome) →
        buf.bytes.take outcome.bytes.length = buf'.bytes.take outcome.bytes.length) :
    t.step file buf event = t.step file buf' event := by
  cases event with
  | read tBuf started =>
      rw [Transfer.step, Transfer.step]
      split
      · next outcome hpending => rw [onRead_congr (h tBuf started outcome rfl hpending)]
      · rfl
  | _ => rfl

/-- A step of a transfer leaves what was read for it at the front of the buffer. -/
theorem own_step {s : System} {i : ℕ} {t t' : Transfer} {buf : CharArray fileBuf}
    {event : Event} (hstore : s.buf.store 0 (event.stored file t) = .ok buf)
    (hawaits : t.Awaits file event) (hstep : t.step file buf event = .ok t') :
    ({ s with buf }.put i (some t')).Own i := by
  intro u outcome hu hpending
  rw [transfer_put_self] at hu
  cases hu
  cases event with
  | connection status accepted opened => cases hawaits
  | fill n =>
      cases hstep
      cases hpending
      have hfits : 0 + (chunkAt file t.position n).bytes.length ≤ fileBuf := by
        rw [Nat.zero_add]
        exact (chunkAt file t.position n).length_le
      obtain ⟨buf', hstore', hbytes⟩ := s.buf.store_of_fits hfits
      obtain rfl := AbortingRun.ok_unique hstore hstore'
      show buf.bytes.take (chunkAt file t.position n).bytes.length = _
      rw [hbytes]
      exact take_overwrite_zero _ _
  | readFails error =>
      -- nothing was read, and nothing is what is there
      cases hstep
      cases hpending
      rfl
  | read tBuf started =>
      obtain ⟨outcome', hread⟩ := Transfer.exists_outcome_of_awaits hawaits
      simp only [Transfer.step, hread] at hstep
      obtain ⟨actions, -, hstep⟩ := AbortingRun.bind_eq_ok.mp hstep
      cases hstep
      exact absurd hpending (pending_react_ne outcome)
  | _ =>
      cases hstep
      exact absurd hpending (pending_react_ne outcome)

/-- What is read can be stored whatever the buffer holds. -/
theorem exists_store (file : List UInt8) (t : Transfer) (event : Event)
    (buf : CharArray fileBuf) :
    ∃ buf', buf.store 0 (event.stored file t) = .ok buf' := by
  have hfits : 0 + (event.stored file t).length ≤ fileBuf := by
    rw [Nat.zero_add]
    cases event with
    | fill n => exact (chunkAt file t.position n).length_le
    | _ => exact Nat.zero_le _
  obtain ⟨buf', hstore, -⟩ := buf.store_of_fits hfits
  exact ⟨buf', hstore⟩

/-- **A step of the client itself**, when it finds its own bytes. -/
theorem Alike.own_event {i : ℕ} {s u s' : System} {event : Event} (h : Alike i s u)
    (henabled : s.Enabled file (i, event)) (hstep : s.step file (i, event) = .ok s')
    (hfinds : s.FindsOwn (i, event)) :
    ∃ u', u.Enabled file (i, event) ∧ u.step file (i, event) = .ok u' ∧ Alike i s' u' := by
  cases step_cases henabled hstep with
  | refused status accepted opened hevent hnew hanswer hs =>
      subst hevent hs
      have hu : u.transfer i = none := h.transfer_eq ▸ hnew
      refine ⟨u.put i none, hu, ?_, ?_, ?_⟩
      · rw [step, hanswer]
        rfl
      · rw [hnew, transfer_put_self]
      · intro t outcome ht
        rw [transfer_put_self] at ht
        cases ht
  | begun status accepted opened hevent hnew hanswer hs =>
      subst hevent hs
      have hu : u.transfer i = none := h.transfer_eq ▸ hnew
      refine ⟨u.put i (some .begun), hu, ?_, ?_, ?_⟩
      · rw [step, hanswer]
        rfl
      · rw [transfer_put_self, transfer_put_self]
      · intro t outcome ht hpending
        rw [transfer_put_self] at ht
        cases ht
        cases hpending
  | next t t' buf ht hawaits hstore hnext hs =>
      subst hs
      have hu : u.transfer i = some t := h.transfer_eq ▸ ht
      -- alone, the client has a buffer with other bytes behind what was read for it
      obtain ⟨buf', hstore'⟩ := exists_store file t event u.buf
      have hnext' : t.step file buf' event = .ok t' := by
        rw [← hnext]
        refine step_congr ?_
        rintro tBuf started outcome rfl hpending
        have hsame : u.buf.store 0 [] = .ok buf' := hstore'
        have hsame' : s.buf.store 0 [] = .ok buf := hstore
        rw [CharArray.store_zero_nil] at hsame hsame'
        cases hsame
        cases hsame'
        rw [h.own t outcome hu hpending, hfinds t outcome ht hpending]
      refine ⟨{ u with buf := buf' }.put i (some t'), enabled_of_awaits hu hawaits, ?_, ?_, ?_⟩
      · rw [step_of_awaits hu hawaits, hstore', AbortingRun.ok_bind, hnext']
        rfl
      · rw [transfer_put_self, transfer_put_self]
      · exact own_step hstore' hawaits hnext'

/-- What `on_read` hands on is what the buffer holds where the read was. -/
theorem handed_of_read {i : ℕ} {s s' : System} {t : Transfer} {chunk : Chunk}
    {tBuf : CharArray fileBuf} {started : Int32} (ht : s.transfer i = some t)
    (hpending : t.pending = some (.fsReadDone (.read chunk))) (hne : chunk.bytes ≠ [])
    (hstep : s.step file (i, .read tBuf started) = .ok s') :
    s'.handed i = t.handed ++ [s.buf.bytes.take chunk.bytes.length ++ [0]] := by
  have hawaits : t.Awaits file (.read tBuf started) := by
    rw [Transfer.Awaits, hpending]
    rfl
  rw [step_of_awaits ht hawaits] at hstep
  obtain ⟨buf, hstore, hstep⟩ := AbortingRun.bind_eq_ok.mp hstep
  have hsame : s.buf.store 0 [] = .ok buf := hstore
  rw [CharArray.store_zero_nil] at hsame
  cases hsame
  simp only [Transfer.step, hpending] at hstep
  rcases chunk.length_le.lt_or_eq with hfits | hfull
  · rw [onRead_chunk hne hfits] at hstep
    cases hstep
    rw [handed, transfer_put_self]
    simp [Transfer.handed, Transfer.react]
  · rw [onRead_full hfull] at hstep
    cases hstep

/-- **A step that hands on other bytes shows**: the client is not handed what it is handed
alone. -/
theorem Alike.shows {i : ℕ} {s u s' u' : System} {event : Event} (h : Alike i s u)
    (hstep : s.step file (i, event) = .ok s') (hstep' : u.step file (i, event) = .ok u')
    (hhanded : u'.handed i = s'.handed i) : s.FindsOwn (i, event) := by
  cases event with
  | read tBuf started =>
      intro t outcome ht hpending
      have hu : u.transfer i = some t := h.transfer_eq ▸ ht
      cases outcome with
      | failed error => rfl
      | read chunk =>
          by_cases hnil : chunk.bytes = []
          · rw [ReadOutcome.bytes, hnil]
            rfl
          · -- alone, what is handed on is what was read, so here it has to be, too
            rw [handed_of_read hu hpending hnil hstep', handed_of_read ht hpending hnil hstep,
              List.append_right_inj, List.singleton_inj, List.append_left_inj] at hhanded
            exact hhanded.symm.trans (h.own t _ hu hpending)
  | _ => trivial

/-- The parts of the clients simulate the run. -/
theorem simulation (file : List UInt8) (memory : CharArray fileBuf) :
    AbortingRun.Simulation (step file) (Enabled file) (start memory) Prod.fst
      (fun i s => s.handed i) Alike FindsOwn where
  start := alike_start
  view_eq := by
    intro i s u h
    rw [handed, handed, h.transfer_eq]
  own := fun h henabled hstep hfinds => h.own_event henabled hstep hfinds
  other := by
    intro i s u t occurrence hne h henabled hstep
    refine ⟨?_, h.own⟩
    rw [(step_cases henabled hstep).transfer_of_ne (Ne.symm hne)]
    exact h.transfer_eq
  shows := fun h _ hstep hstep' hhanded => h.shows hstep hstep' hhanded

/-- **Transfers do not mix exactly when each `on_read` finds what was read for its
client.** -/
theorem transfersIsolated_iff {history : List (ℕ × Event)} {s : System}
    (h : Reaches file memory history s) :
    AbortingRun.Isolated (step file) (Enabled file) (start memory) Prod.fst
        (fun i s => s.handed i) history ↔
      AbortingRun.EachStep (step file) FindsOwn (start memory) history :=
  (simulation file memory).isolated_iff h

/-- The reads of two clients that follow each other. -/
def turns : List (ℕ × Event) :=
  [(0, .connection 0 0 0), (0, .opened 3 0), (1, .connection 0 0 0), (1, .opened 4 0),
    (0, .fill 1), (0, .read (CharArray.zeros fileBuf) 0), (1, .fill 1),
    (1, .read (CharArray.zeros fileBuf) 0)]

theorem transfersIsolated_iff_turns :
    AbortingRun.Isolated (step [1, 2]) (Enabled [1, 2]) (start (CharArray.zeros fileBuf)) Prod.fst
        (fun i s => s.handed i) turns ↔
      AbortingRun.EachStep (step [1, 2]) FindsOwn (start (CharArray.zeros fileBuf)) turns := by
  have hrun : (runEvents [1, 2] (CharArray.zeros fileBuf) turns).map (fun s => s.handed 1) =
      some [[1, 0]] := by decide +kernel
  obtain ⟨s, hreach, -⟩ := exists_reaches_of_map _ hrun
  exact transfersIsolated_iff hreach

/-- The second read of client 0 is over, and before `on_read` is called, so is the first one
of client 1. -/
def mixed : List (ℕ × Event) :=
  [(0, .connection 0 0 0), (0, .opened 3 0), (1, .connection 0 0 0), (1, .opened 4 0),
    (0, .fill 1), (0, .read (CharArray.zeros fileBuf) 0), (0, .written 0 0), (0, .fill 1),
    (1, .fill 1), (0, .read (CharArray.zeros fileBuf) 0)]

/-- Client 0 is handed the first byte of the file twice. -/
theorem not_isolated_mixed : ∃ s, Reaches [1, 2] (CharArray.zeros fileBuf) mixed s ∧
    ¬AbortingRun.Isolated (step [1, 2]) (Enabled [1, 2]) (start (CharArray.zeros fileBuf)) Prod.fst
      (fun i s => s.handed i) mixed := by
  have hrun : (runEvents [1, 2] (CharArray.zeros fileBuf) mixed).map (fun s => s.handed 0) =
      some [[1, 0], [1, 0]] := by decide +kernel
  have halone : (runEvents [1, 2] (CharArray.zeros fileBuf)
      (AbortingRun.alone Prod.fst 0 mixed)).map (fun s => s.handed 0) =
        some [[1, 0], [2, 0]] := by decide +kernel
  obtain ⟨s, hreach, hs⟩ := exists_reaches_of_map _ hrun
  obtain ⟨u, hreach', hu⟩ := exists_reaches_of_map _ halone
  refine ⟨s, hreach, ?_⟩
  intro hisolated
  obtain ⟨v, hv, hview⟩ := hisolated 0 mixed s (List.prefix_refl _) hreach.run_eq_ok
  obtain rfl := AbortingRun.ok_unique hreach'.run_eq_ok hv.run_eq_ok
  have hsame : u.handed 0 = s.handed 0 := hview
  rw [hu, hs] at hsame
  exact absurd hsame (by decide)

end System

end LearnUv.FileTransfer
