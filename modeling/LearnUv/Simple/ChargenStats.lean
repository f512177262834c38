import LearnUv.Simple.Chargen
import Mathlib.Algebra.BigOperators.Group.List.Basic

/-!
# The statistics of `chargen`

Each completion of a write adds to two counters: the one of the connection, and the one of
all connections, which the timer prints and resets.  The callback frees the counter of a
connection whose write has failed and closes the handle, and then goes on as if nothing had
happened.

As long as every completion was of a write that succeeded, each connection waits for one
write, its counter is the sum of what its completions reported, and the global counter with
what the timer has printed is the sum of these over all connections (`Healthy`).  The first
completion that is not breaks the statistics: the counter of its connection is freed and then
added to, or a sum wraps around.

## Main Definitions

* `Exact` — the counters are right, and failed connections left alone
* `Succeeds` — no write fails, and no counter overflows

## Main Results

* `exact_iff` — the statistics are exact throughout a run exactly when every completion is
  of a write that succeeded
-/

namespace LearnUv.Chargen

/-! ## What is promised -/

/-- The bytes of the writes of a record that succeeded. -/
def completedBytes (record : List Occurrence) : ℕ :=
  (record.map fun
    | .completed status bytes => if 0 ≤ status then bytes else 0
    | _ => 0).sum

/-- After the first write that failed the handle is closed, once, the freed `stats` are not
used, and nothing is written. -/
def LeftAlone (record : List Occurrence) : Prop :=
  ∀ before status bytes after, record = before ++ .completed status bytes :: after → status < 0 →
    record.count .closes = 1 ∧ .writes ∉ after ∧
      ∀ unfreed freed, after = unfreed ++ .freesStat :: freed → .usesStat ∉ freed

/-- The statistics are exact. -/
structure Exact (s : Server) : Prop where
  transfered : ∀ c ∈ s.connections, c.transfered.toNat = completedBytes c.record
  /-- Together with what the timer has taken away. -/
  total : s.globals.transfered.toNat + (s.globals.printed.map UInt64.toNat).sum =
    (s.connections.map fun c => completedBytes c.record).sum
  leftAlone : ∀ c ∈ s.connections, LeftAlone c.record

/-- A write that is over has succeeded, and the counters have room for it. -/
def Succeeds (s : Server) : Event → Prop
  | .writeEnd i status => 0 ≤ status ∧
      (∀ c ∈ s.connections[i]?, c.transfered.toNat + sizeofMessage.toNat < 2 ^ 64) ∧
        s.globals.transfered.toNat + sizeofMessage.toNat < 2 ^ 64
  | _ => True

instance (s : Server) (event : Event) : Decidable (Succeeds s event) :=
  match event with
  | .writeEnd i status => inferInstanceAs (Decidable (0 ≤ status ∧
      (∀ c ∈ s.connections[i]?, c.transfered.toNat + sizeofMessage.toNat < 2 ^ 64) ∧
        s.globals.transfered.toNat + sizeofMessage.toNat < 2 ^ 64))
  | .connection _ => inferInstanceAs (Decidable True)
  | .flush _ _ => inferInstanceAs (Decidable True)
  | .timeout => inferInstanceAs (Decidable True)

/-! ## Records -/

@[simp] theorem completedBytes_append (first second : List Occurrence) :
    completedBytes (first ++ second) = completedBytes first + completedBytes second := by
  simp [completedBytes]

/-- All writes that are over have succeeded. -/
def NoneFailed (record : List Occurrence) : Prop :=
  ∀ status bytes, .completed status bytes ∈ record → 0 ≤ status

/-- Where no write has failed there is nothing to leave alone. -/
theorem NoneFailed.leftAlone {record : List Occurrence} (h : NoneFailed record) :
    LeftAlone record := by
  rintro before status bytes after rfl hneg
  have hstatus := h status bytes (by simp)
  exact absurd hneg (Int32.not_lt.mpr hstatus)

theorem NoneFailed.append {first second : List Occurrence} (hfirst : NoneFailed first)
    (hsecond : NoneFailed second) : NoneFailed (first ++ second) := fun status bytes h =>
  (List.mem_append.mp h).elim (hfirst status bytes) (hsecond status bytes)

/-- The connection was given up in the middle of a callback that went on. -/
theorem not_leftAlone_failed (c : Connection) {status : Int32} (h : status < 0) :
    ¬LeftAlone (c.failed status).record := by
  intro hleft
  obtain ⟨-, hwrites, -⟩ := hleft c.record status 8 _ rfl h
  simp at hwrites

/-- A completion that succeeded counts its eight bytes. -/
theorem completedBytes_next (c : Connection) {status : Int32} (h : 0 ≤ status) :
    completedBytes (c.next status).record = completedBytes c.record + 8 := by
  show completedBytes (c.record ++ _) = _
  rw [completedBytes_append]
  simp [completedBytes, h]

/-- A sum over a list of which an element is replaced. -/
theorem sum_map_set {α : Type} {xs : List α} {i : ℕ} {a : α} (f : α → ℕ) (h : xs[i]? = some a)
    (b : α) : ((xs.set i b).map f).sum + f a = (xs.map f).sum + f b := by
  induction xs generalizing i with
  | nil => cases h
  | cons x xs ih =>
      cases i with
      | zero =>
          cases h
          simp only [List.set_cons_zero, List.map_cons, List.sum_cons]
          omega
      | succ i =>
          have hrest := ih h
          simp only [List.set_cons_succ, List.map_cons, List.sum_cons]
          omega

/-! ## The statistics -/

/-- The addition is exact when there is room for it. -/
theorem toNat_add_sizeofMessage_iff {n : UInt64} :
    (n + sizeofMessage).toNat = n.toNat + 8 ↔ n.toNat + sizeofMessage.toNat < 2 ^ 64 := by
  have hsize : sizeofMessage.toNat = 8 := rfl
  have hlt := n.toNat_lt
  rw [UInt64.toNat_add, hsize]
  omega

/-- The statistics are exact, and there is no failed connection. -/
structure Healthy (s : Server) : Prop where
  waits : ∀ c ∈ s.connections, c.Waits
  noneFailed : ∀ c ∈ s.connections, NoneFailed c.record
  transfered : ∀ c ∈ s.connections, c.transfered.toNat = completedBytes c.record
  total : s.globals.transfered.toNat + (s.globals.printed.map UInt64.toNat).sum =
    (s.connections.map fun c => completedBytes c.record).sum

namespace Healthy

variable {s t : Server} {event : Event}

theorem start : Healthy start := by
  constructor <;> simp [Chargen.start]

theorem exact (h : Healthy s) : Exact s :=
  ⟨h.transfered, h.total, fun c hc => (h.noneFailed c hc).leftAlone⟩

/-- **What does not fail is counted.** -/
theorem change (h : Healthy s) (hchange : Change s event t) (hsucceeds : Succeeds s event) :
    Healthy t := by
  have hwaits := hchange.waits h.waits
  cases hchange with
  | refused results => exact h
  | accepted results hbuf =>
      refine ⟨hwaits, ?_, ?_, ?_⟩
      · exact List.forall_mem_append.mpr ⟨h.noneFailed, by simp [NoneFailed, Connection.fresh]⟩
      · exact List.forall_mem_append.mpr
          ⟨h.transfered, by simp [completedBytes, Connection.fresh]⟩
      · rw [List.map_append, List.sum_append]
        exact h.total
  | @flush i k c hc hopen =>
      have hmem := List.mem_of_getElem? hc
      have hnone : NoneFailed (c.flush s.globals.globalBuf.bytes k).record := h.noneFailed c hmem
      have hcounted : (c.flush s.globals.globalBuf.bytes k).transfered.toNat =
          completedBytes (c.flush s.globals.globalBuf.bytes k).record := h.transfered c hmem
      have hsum : ((s.connections.set i (c.flush s.globals.globalBuf.bytes k)).map
          fun c => completedBytes c.record).sum + completedBytes c.record =
            (s.connections.map fun c => completedBytes c.record).sum + completedBytes c.record :=
        sum_map_set (fun c => completedBytes c.record) hc _
      exact ⟨hwaits, forall_mem_set h.noneFailed hnone, forall_mem_set h.transfered hcounted,
        h.total.trans (Nat.add_right_cancel hsum).symm⟩
  | @writeEnd i status c hc hopen hsent globalBuf hbuf =>
      obtain ⟨hstatus, hroom, hglobal⟩ := hsucceeds
      have hmem := List.mem_of_getElem? hc
      have hnext : c.written status = c.next status := if_neg (Int32.not_lt.mpr hstatus)
      have hbytes := completedBytes_next c hstatus
      have hnone : NoneFailed (c.next status).record := by
        refine (h.noneFailed c hmem).append ?_
        simp [NoneFailed, hstatus]
      have hcounted : (c.next status).transfered.toNat =
          completedBytes (c.next status).record := by
        rw [hbytes, ← h.transfered c hmem]
        exact toNat_add_sizeofMessage_iff.mpr (hroom c hc)
      have hsum := sum_map_set (fun c => completedBytes c.record) hc (c.next status)
      have htotal := h.total
      have hplus := toNat_add_sizeofMessage_iff.mpr hglobal
      rw [hnext] at hwaits ⊢
      refine ⟨hwaits, forall_mem_set h.noneFailed hnone, forall_mem_set h.transfered hcounted, ?_⟩
      dsimp only at hsum ⊢
      omega
  | timeout =>
      refine ⟨h.waits, h.noneFailed, h.transfered, ?_⟩
      rw [← h.total]
      simp [onTimeout, Nat.add_comm]

/-- **What is counted did not fail**: after another completion the statistics are wrong, or
the connection was not left alone. -/
theorem succeeds (h : Healthy s) (hchange : Change s event t) (hexact : Exact t) :
    Succeeds s event := by
  cases hchange with
  | refused results => trivial
  | accepted results hbuf => trivial
  | flush k hc hopen => trivial
  | @writeEnd i status c hc hopen hsent globalBuf hbuf =>
      have hmem := List.mem_of_getElem? hc
      have hafter : c.written status ∈ s.connections.set i (c.written status) :=
        List.mem_set (List.getElem?_eq_some_iff.mp hc).1 _
      have hstatus : 0 ≤ status := by
        by_contra hneg
        have hlt := Int32.not_le.mp hneg
        have hfailed : c.written status = c.failed status := if_pos hlt
        rw [hfailed] at hafter hexact
        exact not_leftAlone_failed c hlt (hexact.leftAlone _ hafter)
      have hnext : c.written status = c.next status := if_neg (Int32.not_lt.mpr hstatus)
      have hbytes := completedBytes_next c hstatus
      rw [hnext] at hafter hexact
      have hcounted : (c.transfered + sizeofMessage).toNat =
          completedBytes (c.next status).record := hexact.transfered _ hafter
      rw [hbytes, ← h.transfered c hmem] at hcounted
      refine ⟨hstatus, ?_, ?_⟩
      · intro d hd
        obtain rfl := Option.some.inj (hc.symm.trans hd)
        exact toNat_add_sizeofMessage_iff.mp hcounted
      · have hsum := sum_map_set (fun c => completedBytes c.record) hc (c.next status)
        have htotal := h.total
        have htotal' := hexact.total
        refine toNat_add_sizeofMessage_iff.mp ?_
        dsimp only at hsum htotal' ⊢
        omega
  | timeout => trivial

end Healthy

/-- **The statistics are exact** throughout a run exactly when every write that is over has
succeeded, and the counters do not overflow. -/
theorem exact_iff {history : List Event} (h : Delivered history) :
    AbortingRun.Always step Exact start history ↔
      AbortingRun.EachStep step Succeeds start history := by
  refine AbortingRun.always_iff_eachStep (I := Healthy) ?_ ?_ ?_ ?_ Healthy.start h
  · exact fun s hs => hs.exact
  · exact fun s event t hs hevent hstep hsucceeds =>
      hs.change (change_of_step hs.waits hevent hstep) hsucceeds
  · exact fun s event t hs hevent hstep hexact =>
      hs.succeeds (change_of_step hs.waits hevent hstep) hexact
  · intro s event abort hs hevent hstep
    cases event with
    | connection results => trivial
    | flush i k => trivial
    | writeEnd i status =>
        obtain ⟨c, globalBuf, -, -, -, -, hok⟩ := step_writeEnd hs.waits hevent
        rw [hok] at hstep
        cases hstep
    | timeout => trivial

/-- A client is accepted. -/
def client : Event := .connection ⟨0, 0, 0, true, 0⟩

/-- Two clients, of which one gets its first write before the timer, and another one after
it. -/
def twoClients : List Event :=
  [client, .flush 0 8, .writeEnd 0 0, .timeout, client, .flush 0 5, .flush 0 3, .writeEnd 0 0]

theorem exact_iff_twoClients : AbortingRun.Always step Exact start twoClients :=
  (exact_iff (AbortingRun.eachStep_of_runEnabled (by decide +kernel))).mpr
    (AbortingRun.eachStep_of_runEnabled (by decide +kernel))

/-- The first write to a client fails (`EPIPE`). -/
def brokenPipe : List Event := [client, .writeEnd 0 (-32)]

/-- The freed statistics are used, and `uv_write` is called for the closed handle. -/
theorem not_exact_brokenPipe :
    Delivered brokenPipe ∧ ¬AbortingRun.Always step Exact start brokenPipe := by
  refine ⟨AbortingRun.eachStep_of_runEnabled (by decide +kernel), ?_⟩
  intro halways
  obtain ⟨s, hs, hmem⟩ : ∃ s, AbortingRun.run step start brokenPipe = .ok s ∧
      Connection.fresh.failed (-32) ∈ s.connections := ⟨_, rfl, List.mem_singleton.mpr rfl⟩
  have hexact := AbortingRun.always_iff.mp halways brokenPipe s List.prefix_rfl hs
  exact not_leftAlone_failed _ (by decide) (hexact.leftAlone _ hmem)

end LearnUv.Chargen
