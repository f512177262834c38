import LearnUv.Common.Memory
import Mathlib.Data.List.Forall2

/-!
# The Go server of `pingpong`

`connect` reads into a buffer and writes what it has read, until a read ends the loop.  The
results of the calls are those the contracts of `io.Reader` and `io.Writer` allow: a read may
return bytes together with an error, and a write that accepts fewer bytes than it was given
returns an error.

The loop does not look at how much of a write was accepted, and goes on after an error of a
write; and it leaves what has come together with the end of the stream.

## What the results decide

Whether the loop echoes depends on two things in the results of the calls, their lengths and
their errors (`KeepsUp`).  Results that keep up echo, whatever bytes they carry.  With results
that do not, it is a matter of luck: what is accepted after a gap may happen to be what the
gap has left out.  So the result is about all the runs with the same lengths and errors
(`SameResults`).  The direction that finds a run without an echo lets the reads up to the gap
return ones, and the later ones zeros.

## Main Definitions

* `Loop`, `step` — the loop of `connect` between its calls
* `Echoes` — what is accepted is a prefix of what was read, and in the end all of it
* `KeepsUp` — the results of the calls leave no gap
* `SameResults` — the results have the same lengths and errors

## Main Results

* `always_echoes` — the loop echoes throughout a run whose results keep up
* `echoes_iff` — it does so for all bytes exactly when they do
-/

namespace LearnUv.GoPingPong

/-- `BUF_SIZE`. -/
def bufSize : ℕ := 2 ^ 16

/-- An error of `conn.Read`. -/
inductive ReadError
  /-- `io.EOF`. -/
  | eof
  | other
  deriving DecidableEq, Repr

/-- Where the loop is. -/
inductive Phase
  /-- In `conn.Read(buf)`. -/
  | reading
  /-- In `conn.Write(buf[:c])`. -/
  | writing (c : ℕ)
  /-- Left, after an error of a read or because a read returned nothing. -/
  | ended (afterError : Bool)
  deriving DecidableEq, Repr

/-- `connect`, with what it has read and written. -/
structure Loop where
  phase : Phase
  buf : CharArray bufSize
  count : Int64
  /-- What the reads have returned. -/
  read : List UInt8
  /-- What the writes have accepted. -/
  accepted : List UInt8
  /-- A write has returned an error. -/
  writeFailed : Bool

/-- What a call returns. -/
inductive Event
  /-- `conn.Read` has put `data` into the buffer. -/
  | read (data : List UInt8) (err : Option ReadError)
  /-- `conn.Write` has accepted `n` bytes. -/
  | wrote (n : ℕ) (err : Bool)
  deriving DecidableEq, Repr

/-- The beginning of `connect`: `make` gives a buffer of zeros. -/
def start : Loop where
  phase := .reading
  buf := CharArray.zeros bufSize
  count := 0
  read := []
  accepted := []
  writeFailed := false

/-- The loop from where a call returns to its next one. -/
def step (s : Loop) : Event → Exec Loop
  | .read data err =>
      match s.phase with
      | .reading => do
          let buf ← s.buf.store 0 data
          let c := data.length
          let count := s.count + Int64.ofNat c
          let s := { s with buf, count, read := s.read ++ data }
          if err = some .eof then
            return { s with phase := .ended true }
          else if c = 0 then
            return { s with phase := .ended err.isSome }
          else
            return { s with phase := .writing c }
      | _ => .ok s
  | .wrote n err =>
      match s.phase with
      | .writing c =>
          .ok { s with
            phase := .reading
            accepted := s.accepted ++ (s.buf.bytes.take c).take n
            writeFailed := s.writeFailed || err }
      | _ => .ok s

/-- What the contracts allow: at most as many bytes as there is room for are read, and a
write that accepts less than it was given returns an error. -/
def Enabled (s : Loop) : Event → Prop
  | .read data _ => s.phase = .reading ∧ data.length ≤ bufSize
  | .wrote n err => ∃ c ≤ bufSize, s.phase = .writing c ∧ n ≤ c ∧ (n < c → err = true)

/-- The calls return what their contracts allow. -/
def Delivered (history : List Event) : Prop := AbortingRun.EachStep step Enabled start history

/-! ## What is promised -/

/-- What was accepted is a prefix of what was read, and all of it when an error has ended
the reading, and the writes have not failed. -/
structure Echoes (s : Loop) : Prop where
  accepted : s.accepted <+: s.read
  complete : s.phase = .ended true → s.writeFailed = false → s.accepted = s.read

/-- The bytes of the buffer that are being written. -/
def Loop.current (s : Loop) : List UInt8 :=
  match s.phase with
  | .writing c => s.buf.bytes.take c
  | _ => []

/-! ## The results of the calls -/

/-- A write has returned an error. -/
def WriteFailed (history : List Event) : Prop := ∃ n, .wrote n true ∈ history

/-- A write has accepted less than it was given: less than the read before it returned. -/
def Short (history : List Event) : Prop :=
  ∃ data rerr n werr, [.read data rerr, .wrote n werr] <:+: history ∧ n < data.length

/-- What a call may return after `before`.  The end of the stream comes alone, or after a
write that returned an error.  Nothing is accepted any more once a write has accepted less
than it was given. -/
def Allowed (before : List Event) : Event → Prop
  | .read data err => err = some .eof → data = [] ∨ WriteFailed before
  | .wrote n _ => Short before → n = 0

/-- Every call returns what it may. -/
def KeepsUp (history : List Event) : Prop :=
  ∀ before event, before ++ [event] <+: history → Allowed before event

/-- Two calls return as many bytes, and the same error. -/
def Event.SameResult : Event → Event → Prop
  | .read data err, .read data' err' => data.length = data'.length ∧ err = err'
  | .wrote n err, .wrote n' err' => n = n' ∧ err = err'
  | _, _ => False

/-- So do all calls of two runs. -/
abbrev SameResults : List Event → List Event → Prop := List.Forall₂ Event.SameResult

@[refl] theorem Event.SameResult.refl (event : Event) : event.SameResult event := by
  cases event with
  | read data err => exact ⟨rfl, rfl⟩
  | wrote n err => exact ⟨rfl, rfl⟩

theorem Event.SameResult.symm {event event' : Event} (h : event.SameResult event') :
    event'.SameResult event := by
  cases event <;> cases event'
  · exact ⟨h.1.symm, h.2.symm⟩
  · cases h
  · cases h
  · exact ⟨h.1.symm, h.2.symm⟩

@[refl] theorem SameResults.refl (history : List Event) : SameResults history history :=
  List.forall₂_same.mpr fun event _ => .refl event

theorem SameResults.symm {history history' : List Event} (h : SameResults history history') :
    SameResults history' history :=
  List.Forall₂.flip (h.imp fun _ _ => Event.SameResult.symm)

/-- Runs with the same results can be cut at the same place. -/
theorem SameResults.of_append {first second history : List Event}
    (h : SameResults (first ++ second) history) :
    ∃ first' second', history = first' ++ second' ∧ SameResults first first' ∧
      SameResults second second' :=
  ⟨history.take first.length, history.drop first.length, (List.take_append_drop _ _).symm,
    .symm (List.forall₂_take_append _ _ _ h.symm), .symm (List.forall₂_drop_append _ _ _ h.symm)⟩

/-- Of a short write, the read before it is the last thing that has happened. -/
theorem Short.concat_wrote {history : List Event} {data : List UInt8}
    {rerr : Option ReadError} (hread : [.read data rerr] <:+ history) {n : ℕ} (werr : Bool)
    (hshort : n < data.length) : Short (history ++ [.wrote n werr]) := by
  obtain ⟨before, rfl⟩ := hread
  refine ⟨data, rerr, n, werr, ⟨before, [], ?_⟩, hshort⟩
  rw [List.append_nil, List.append_assoc]
  rfl

/-- Whether a write was short is seen in the results. -/
theorem Short.of_sameResults {history history' : List Event} (h : Short history)
    (hsame : SameResults history history') : Short history' := by
  obtain ⟨data, rerr, n, werr, ⟨before, after, rfl⟩, hshort⟩ := h
  obtain ⟨first, after', rfl, hfirst, -⟩ := hsame.of_append
  obtain ⟨before', pair, rfl, -, hpair⟩ := hfirst.of_append
  match pair, hpair with
  | [.read data' rerr', .wrote n' werr'], .cons hread (.cons hwrote .nil) =>
      refine ⟨data', rerr', n', werr', ⟨before', after', rfl⟩, ?_⟩
      rw [← hread.1, ← hwrote.1]
      exact hshort

theorem Short.mono {history history' : List Event} (h : Short history)
    (hle : history <+: history') : Short history' := by
  obtain ⟨data, rerr, n, werr, hpair, hshort⟩ := h
  exact ⟨data, rerr, n, werr, hpair.trans hle.isInfix, hshort⟩

/-- A run is short when a write was before, or when it ends with one. -/
theorem Short.of_concat {history : List Event} {event : Event}
    (h : Short (history ++ [event])) :
    Short history ∨ ∃ data rerr n werr, event = .wrote n werr ∧
      [.read data rerr] <:+ history ∧ n < data.length := by
  obtain ⟨data, rerr, n, werr, hpair, hshort⟩ := h
  rcases List.infix_concat_iff.mp hpair with hlast | hbefore
  · rcases List.suffix_concat_iff.mp hlast with hnil | ⟨first, hfirst, hsuffix⟩
    · cases hnil
    · have hsplit : [.read data rerr] ++ [.wrote n werr] = first ++ [event] := hfirst
      obtain ⟨rfl, hevent⟩ := List.append_inj' hsplit rfl
      cases hevent
      exact Or.inr ⟨data, rerr, n, werr, rfl, hsuffix, hshort⟩
  · exact Or.inl ⟨data, rerr, n, werr, hbefore, hshort⟩

theorem writeFailed_concat {history : List Event} {event : Event} :
    WriteFailed (history ++ [event]) ↔ WriteFailed history ∨ ∃ n, event = .wrote n true := by
  simp [WriteFailed, exists_or, eq_comm]

theorem WriteFailed.of_sameResults {history history' : List Event} (h : WriteFailed history)
    (hsame : SameResults history history') : WriteFailed history' := by
  obtain ⟨n, hmem⟩ := h
  obtain ⟨before, after, rfl⟩ := List.append_of_mem hmem
  obtain ⟨before', rest, rfl, -, hrest⟩ := hsame.of_append
  match rest, hrest with
  | .wrote n' err :: after', .cons hwrote _ =>
      obtain ⟨rfl, rfl⟩ := hwrote
      exact ⟨n, by simp⟩

/-- So is whether they keep up. -/
theorem KeepsUp.of_sameResults {history history' : List Event} (h : KeepsUp history)
    (hsame : SameResults history history') : KeepsUp history' := by
  rintro before' event' ⟨after', rfl⟩
  obtain ⟨first, after, rfl, hfirst, -⟩ := hsame.symm.of_append
  obtain ⟨before, last, rfl, hbefore, hlast⟩ := hfirst.of_append
  match last, hlast with
  | [event], .cons hevent .nil =>
      have hallowed := h before event (List.prefix_append _ _)
      cases event' with
      | read data' err' =>
          cases event with
          | wrote n err => cases hevent
          | read data err =>
              obtain ⟨hlength, rfl⟩ := hevent
              intro heof
              refine (hallowed heof).imp (fun hnil => ?_) (·.of_sameResults hbefore.symm)
              rw [hnil] at hlength
              exact List.eq_nil_of_length_eq_zero hlength
      | wrote n' err' =>
          cases event with
          | read data err => cases hevent
          | wrote n err =>
              obtain ⟨rfl, rfl⟩ := hevent
              exact fun hshort => hallowed (hshort.of_sameResults hbefore)

/-! ## What the calls lead to -/

/-- Where the loop goes from a read. -/
def Phase.afterRead (c : ℕ) (err : Option ReadError) : Phase :=
  if err = some .eof then .ended true
  else if c = 0 then .ended err.isSome
  else .writing c

namespace Loop

variable (s : Loop) {data : List UInt8} (err : Option ReadError) {buf : CharArray bufSize}
  (count : Int64)

/-- The loop after a read. -/
def afterRead (data : List UInt8) (err : Option ReadError) (buf : CharArray bufSize)
    (count : Int64) : Loop :=
  { s with buf, count, read := s.read ++ data, phase := .afterRead data.length err }

/-- The loop after a write. -/
def afterWrite (n : ℕ) (err : Bool) : Loop :=
  { s with
    phase := .reading
    accepted := s.accepted ++ s.current.take n
    writeFailed := s.writeFailed || err }

/-- A read ends the loop, or is written next. -/
theorem afterRead_cases (hbuf : buf.bytes.take data.length = data) :
    ((∃ b, (s.afterRead data err buf count).phase = .ended b) ∧
      (s.afterRead data err buf count).current = [] ∧ (err = some .eof ∨ data = [])) ∨
    ((s.afterRead data err buf count).phase = .writing data.length ∧
      (s.afterRead data err buf count).current = data) := by
  have hphase : (s.afterRead data err buf count).phase = .afterRead data.length err := rfl
  by_cases heof : err = some .eof
  · rw [Phase.afterRead, if_pos heof] at hphase
    exact Or.inl ⟨⟨_, hphase⟩, by rw [current, hphase], Or.inl heof⟩
  · rw [Phase.afterRead, if_neg heof] at hphase
    by_cases hzero : data.length = 0
    · rw [if_pos hzero] at hphase
      exact Or.inl ⟨⟨_, hphase⟩, by rw [current, hphase],
        Or.inr (List.eq_nil_of_length_eq_zero hzero)⟩
    · rw [if_neg hzero] at hphase
      refine Or.inr ⟨hphase, ?_⟩
      rw [current, hphase]
      exact hbuf

theorem current_of_reading {s : Loop} (h : s.phase = .reading) : s.current = [] := by
  rw [current, h]

end Loop

/-- **A read** is at the front of the buffer. -/
theorem step_read {s : Loop} {data : List UInt8} {err : Option ReadError}
    (henabled : Enabled s (.read data err)) :
    ∃ buf count, buf.bytes.take data.length = data ∧
      step s (.read data err) = .ok (s.afterRead data err buf count) := by
  obtain ⟨hphase, hsize⟩ := henabled
  obtain ⟨buf, hstore, hbytes⟩ :=
    s.buf.store_of_fits (show 0 + data.length ≤ bufSize by omega)
  refine ⟨buf, s.count + Int64.ofNat data.length, ?_, ?_⟩
  · rw [hbytes, take_overwrite_zero]
  · simp only [step, hphase, hstore, AbortingRun.ok_bind, Loop.afterRead, Phase.afterRead]
    split
    · rfl
    · split <;> rfl

/-- **A write** that is over is followed by a read. -/
theorem step_wrote {s : Loop} {n : ℕ} {err : Bool} (henabled : Enabled s (.wrote n err)) :
    step s (.wrote n err) = .ok (s.afterWrite n err) := by
  obtain ⟨c, -, hphase, -⟩ := henabled
  simp only [step, hphase, Loop.afterWrite, Loop.current]

theorem step_returns (s : Loop) (event : Event) (henabled : Enabled s event) :
    ∃ t, step s event = .ok t := by
  cases event with
  | read data err =>
      obtain ⟨buf, count, -, hok⟩ := step_read henabled
      exact ⟨_, hok⟩
  | wrote n err => exact ⟨_, step_wrote henabled⟩

/-! ## What is left behind -/

/-- The loop has been faithful up to the last read: what was read before it, what was
accepted of that, and what is being written. -/
structure Faithful (s : Loop) (earlier : List UInt8) : Prop where
  read : s.read = earlier ++ s.current
  accepted : s.accepted <+: earlier
  complete : s.writeFailed = false → s.accepted = earlier
  length_current : ∀ c, s.phase = .writing c → s.current.length = c

namespace Faithful

variable {s t : Loop} {earlier : List UInt8} {event : Event}

theorem echoes (h : Faithful s earlier) : Echoes s where
  accepted := h.read ▸ h.accepted.trans (List.prefix_append _ _)
  complete := by
    intro hphase hfailed
    rw [h.read, Loop.current, hphase, List.append_nil]
    exact h.complete hfailed

/-- After a read.  What comes together with the end of the stream is lost. -/
theorem afterRead (h : Faithful s earlier) {data : List UInt8} {err : Option ReadError}
    (hphase : s.phase = .reading) {buf : CharArray bufSize} (count : Int64)
    (hbuf : buf.bytes.take data.length = data)
    (hend : err = some .eof → data = [] ∨ s.writeFailed = true) :
    ∃ earlier', Faithful (s.afterRead data err buf count) earlier' := by
  have hread : s.read = earlier := by
    rw [h.read, Loop.current_of_reading hphase, List.append_nil]
  rcases s.afterRead_cases err count hbuf with ⟨⟨b, hended⟩, hnone, hleft⟩ | ⟨hwriting, hdata⟩
  · refine ⟨s.read ++ data, ?_, ?_, ?_, fun c hc => by rw [hended] at hc; cases hc⟩
    · rw [hnone, List.append_nil]
      rfl
    · rw [hread]
      exact h.accepted.trans (List.prefix_append _ _)
    · intro hfailed
      have hnil : data = [] := by
        rcases hleft with heof | hnil
        · exact (hend heof).resolve_right (Bool.eq_false_iff.mp hfailed)
        · exact hnil
      rw [hread, hnil, List.append_nil]
      exact h.complete hfailed
  · refine ⟨earlier, ?_, h.accepted, h.complete, ?_⟩
    · rw [hdata, ← hread]
      rfl
    · intro c hc
      rw [hwriting] at hc
      cases hc
      rw [hdata]

/-- After a write that accepts what comes next. -/
theorem afterWrite (h : Faithful s earlier) {n : ℕ} {err : Bool}
    (henabled : Enabled s (.wrote n err))
    (hnext : s.accepted ++ s.current.take n <+: s.read) :
    Faithful (s.afterWrite n err) s.read := by
  obtain ⟨c, -, hphase, hle, hshort⟩ := henabled
  refine ⟨(List.append_nil _).symm, hnext, ?_, fun c hc => by cases hc⟩
  intro hfailed
  obtain ⟨hfailed, herr⟩ := Bool.or_eq_false_iff.mp hfailed
  -- a write without an error has accepted everything
  have hall : n = c := by
    rcases Nat.lt_or_eq_of_le hle with hlt | heq
    · rw [hshort hlt] at herr
      cases herr
    · exact heq
  have htake : s.current.take n = s.current := by
    rw [hall, ← h.length_current c hphase, List.take_length]
  show s.accepted ++ s.current.take n = s.read
  rw [htake, h.read, h.complete hfailed]

end Faithful

/-! ## What the results tell of the loop -/

/-- What the results of the calls tell of the loop, whatever bytes they carried. -/
structure Recorded (history : List Event) (s : Loop) : Prop where
  failed : s.writeFailed = true ↔ WriteFailed history
  /-- What is being written was read just now. -/
  given : ∀ c, s.phase = .writing c → s.current.length = c ∧
    ∃ data err, [.read data err] <:+ history ∧ data.length = c
  accepted_le : s.accepted.length + s.current.length ≤ s.read.length
  /-- After a short write there is a gap for good. -/
  gap : Short history → s.accepted.length + s.current.length < s.read.length

theorem recorded_start : Recorded [] start where
  failed := by simp [start, WriteFailed]
  given := fun c hc => by cases hc
  accepted_le := le_rfl
  gap := by
    rintro ⟨data, rerr, n, werr, hpair, -⟩
    cases List.infix_nil.mp hpair

/-- After a read. -/
theorem Recorded.read {history : List Event} {s : Loop} (h : Recorded history s)
    {data : List UInt8} {err : Option ReadError} {buf : CharArray bufSize} (count : Int64)
    (hbuf : buf.bytes.take data.length = data) :
    Recorded (history ++ [.read data err]) (s.afterRead data err buf count) := by
  have hlength : (s.afterRead data err buf count).current.length ≤ data.length := by
    rcases s.afterRead_cases err count hbuf with ⟨-, hnone, -⟩ | ⟨-, hdata⟩
    · rw [hnone]
      exact Nat.zero_le _
    · rw [hdata]
  have hread : (s.afterRead data err buf count).read.length = s.read.length + data.length :=
    List.length_append
  have haccepted : (s.afterRead data err buf count).accepted = s.accepted := rfl
  refine ⟨?_, ?_, ?_, ?_⟩
  · rw [writeFailed_concat, ← h.failed]
    simp [Loop.afterRead]
  · intro c hc
    rcases s.afterRead_cases err count hbuf with ⟨⟨b, hended⟩, -⟩ | ⟨hwriting, hdata⟩
    · rw [hended] at hc
      cases hc
    · rw [hwriting] at hc
      cases hc
      exact ⟨congrArg List.length hdata, data, err, List.suffix_append _ _, rfl⟩
  · have hle := h.accepted_le
    rw [hread, haccepted]
    omega
  · intro hshort
    rcases hshort.of_concat with hbefore | ⟨_, _, _, _, hevent, -⟩
    · have hgap := h.gap hbefore
      rw [hread, haccepted]
      omega
    · cases hevent

/-- After a write. -/
theorem Recorded.wrote {history : List Event} {s : Loop} (h : Recorded history s) {n : ℕ}
    {err : Bool} (henabled : Enabled s (.wrote n err)) :
    Recorded (history ++ [.wrote n err]) (s.afterWrite n err) := by
  obtain ⟨c, -, hphase, hle, hfails⟩ := henabled
  obtain ⟨hlength, data, rerr, hread, hdata⟩ := h.given c hphase
  have hnone : (s.afterWrite n err).current = [] := rfl
  have haccepted : (s.afterWrite n err).accepted.length = s.accepted.length + n := by
    show (s.accepted ++ s.current.take n).length = _
    rw [List.length_append, List.length_take, hlength, Nat.min_eq_left hle]
  have hsame : (s.afterWrite n err).read = s.read := rfl
  have hbefore := h.accepted_le
  refine ⟨?_, (fun c hc => by cases hc), ?_, ?_⟩
  · rw [writeFailed_concat, ← h.failed]
    simp [Loop.afterWrite]
  · rw [hnone, haccepted, hsame, List.length_nil]
    omega
  · intro hshort
    rw [hnone, haccepted, hsame, List.length_nil]
    rcases hshort.of_concat with hearlier | ⟨data', _, n', _, hevent, hread', hlt⟩
    · have hgap := h.gap hearlier
      omega
    · -- the read before this write is the one it writes
      cases hevent
      obtain ⟨before, rfl⟩ := hread
      obtain ⟨before', hsplit⟩ := hread'
      cases List.append_inj_right' hsplit rfl
      omega

theorem Recorded.step {history : List Event} {s t : Loop} (h : Recorded history s)
    {event : Event} (henabled : Enabled s event) (hstep : step s event = .ok t) :
    Recorded (history ++ [event]) t := by
  cases event with
  | read data err =>
      obtain ⟨buf, count, hbuf, hok⟩ := step_read henabled
      obtain rfl := AbortingRun.ok_unique hok hstep
      exact h.read count hbuf
  | wrote n err =>
      obtain rfl := AbortingRun.ok_unique (step_wrote henabled) hstep
      exact h.wrote henabled

theorem recorded_of_run {history : List Event} (h : Delivered history) {s : Loop}
    (hrun : AbortingRun.run step start history = .ok s) : Recorded history s := by
  suffices ∀ before, before <+: history → ∀ t, AbortingRun.run step start before = .ok t →
      Recorded before t from this history List.prefix_rfl s hrun
  intro before
  induction before using List.reverseRecOn with
  | nil =>
      rintro - t ht
      cases ht
      exact recorded_start
  | append_singleton before event ih =>
      intro hprefix t ht
      obtain ⟨u, hu, hlast⟩ := (AbortingRun.run_concat_eq_ok step).mp ht
      exact (ih ((List.prefix_append _ _).trans hprefix) u hu).step
        (AbortingRun.eachStep_at h hprefix hu) hlast

/-! ## Results that keep up -/

/-- The loop is in step: nothing is left behind unless a write was short. -/
structure InStep (history : List Event) (s : Loop) : Prop where
  recorded : Recorded history s
  faithful : ∃ earlier, Faithful s earlier
  whole : ¬Short history → (∀ b, s.phase ≠ .ended b) → s.accepted ++ s.current = s.read

theorem inStep_start : InStep [] start where
  recorded := recorded_start
  faithful := ⟨[], rfl, List.prefix_rfl, fun _ => rfl, fun c hc => by cases hc⟩
  whole := fun _ _ => rfl

/-- After a read. -/
theorem InStep.read {history : List Event} {s : Loop} (h : InStep history s)
    {data : List UInt8} {err : Option ReadError} (hphase : s.phase = .reading)
    (hallowed : Allowed history (.read data err)) {buf : CharArray bufSize} (count : Int64)
    (hbuf : buf.bytes.take data.length = data) :
    InStep (history ++ [.read data err]) (s.afterRead data err buf count) := by
  obtain ⟨earlier, hs⟩ := h.faithful
  have hend : err = some .eof → data = [] ∨ s.writeFailed = true := by
    rw [h.recorded.failed]
    exact hallowed
  refine ⟨h.recorded.read count hbuf, hs.afterRead hphase count hbuf hend, ?_⟩
  intro hnot hrunning
  have hbefore : s.accepted ++ s.current = s.read :=
    h.whole (fun hshort => hnot (hshort.mono (List.prefix_append _ _)))
      fun b hb => by rw [hphase] at hb; cases hb
  rw [Loop.current_of_reading hphase, List.append_nil] at hbefore
  rcases s.afterRead_cases err count hbuf with ⟨⟨b, hended⟩, -⟩ | ⟨-, hdata⟩
  · exact absurd hended (hrunning b)
  · rw [hdata]
    exact congrArg (· ++ data) hbefore

/-- After a write. -/
theorem InStep.wrote {history : List Event} {s : Loop} (h : InStep history s) {n : ℕ}
    {err : Bool} (henabled : Enabled s (.wrote n err))
    (hallowed : Allowed history (.wrote n err)) :
    InStep (history ++ [.wrote n err]) (s.afterWrite n err) := by
  obtain ⟨earlier, hs⟩ := h.faithful
  obtain ⟨c, -, hphase, hle, -⟩ := id henabled
  obtain ⟨hlength, data, rerr, hread, hdata⟩ := h.recorded.given c hphase
  have hrunning : ∀ b, s.phase ≠ .ended b := fun b hb => by rw [hphase] at hb; cases hb
  have hnext : s.accepted ++ s.current.take n <+: s.read := by
    by_cases hshort : Short history
    · have hzero : n = 0 := hallowed hshort
      rw [hzero, List.take_zero, List.append_nil]
      exact hs.echoes.accepted
    · rw [← h.whole hshort hrunning]
      exact (List.prefix_append_right_inj _).mpr (List.take_prefix _ _)
  refine ⟨h.recorded.wrote henabled, ⟨s.read, hs.afterWrite henabled hnext⟩, fun hnot _ => ?_⟩
  -- a write that is not short has accepted everything
  have hall : c ≤ n := by
    by_contra hlt
    exact hnot (.concat_wrote hread err (by omega))
  have hbefore := h.whole (fun hshort => hnot (hshort.mono (List.prefix_append _ _))) hrunning
  show s.accepted ++ s.current.take n ++ [] = s.read
  rw [List.append_nil, List.take_of_length_le (by omega), hbefore]

/-- **The step**: a result that is allowed keeps the loop in step. -/
theorem InStep.step {history : List Event} {s t : Loop} (h : InStep history s) {event : Event}
    (henabled : Enabled s event) (hallowed : Allowed history event)
    (hstep : GoPingPong.step s event = .ok t) : InStep (history ++ [event]) t := by
  cases event with
  | read data err =>
      obtain ⟨buf, count, hbuf, hok⟩ := step_read henabled
      obtain rfl := AbortingRun.ok_unique hok hstep
      exact h.read henabled.1 hallowed count hbuf
  | wrote n err =>
      obtain rfl := AbortingRun.ok_unique (step_wrote henabled) hstep
      exact h.wrote henabled hallowed

/-- **The loop echoes** throughout a run whose results keep up, whatever bytes they carry. -/
theorem always_echoes {history : List Event} (h : Delivered history) (hkeeps : KeepsUp history) :
    AbortingRun.Always step Echoes start history := by
  refine AbortingRun.always_iff.mpr fun before => ?_
  suffices before <+: history → ∀ t, AbortingRun.run step start before = .ok t →
      InStep before t by
    intro t hprefix hrun
    obtain ⟨earlier, ht⟩ := (this hprefix t hrun).faithful
    exact ht.echoes
  induction before using List.reverseRecOn with
  | nil =>
      rintro - t ht
      cases ht
      exact inStep_start
  | append_singleton before event ih =>
      intro hprefix t ht
      obtain ⟨u, hu, hlast⟩ := (AbortingRun.run_concat_eq_ok step).mp ht
      exact (ih ((List.prefix_append _ _).trans hprefix) u hu).step
        (AbortingRun.eachStep_at h hprefix hu) (hkeeps before event hprefix) hlast

/-! ## Results that do not -/

/-- What the contracts allow depends on the lengths and the errors only. -/
theorem eachStep_enabled_of_sameResults {history history' : List Event}
    (hsame : SameResults history history') {s s' : Loop} (hphase : s.phase = s'.phase)
    (h : AbortingRun.EachStep step Enabled s history) :
    AbortingRun.EachStep step Enabled s' history' := by
  induction hsame generalizing s s' with
  | nil => trivial
  | @cons event event' history history' hevent hrest ih =>
      obtain ⟨henabled, hlater⟩ := h
      cases event with
      | read data err =>
          cases event' with
          | wrote n err' => cases hevent
          | read data' err' =>
              obtain ⟨hlength, rfl⟩ := hevent
              have henabled' : Enabled s' (.read data' err) :=
                ⟨hphase ▸ henabled.1, hlength ▸ henabled.2⟩
              obtain ⟨buf, count, -, hok⟩ := step_read henabled
              obtain ⟨buf', count', -, hok'⟩ := step_read henabled'
              refine ⟨henabled', fun t' ht' => ?_⟩
              obtain rfl := AbortingRun.ok_unique hok' ht'
              exact ih (congrArg (Phase.afterRead · err) hlength) (hlater _ hok)
      | wrote n err =>
          cases event' with
          | read data' err' => cases hevent
          | wrote n' err' =>
              obtain ⟨rfl, rfl⟩ := hevent
              have henabled' : Enabled s' (.wrote n err) := by
                obtain ⟨c, hc, hwriting, hle⟩ := henabled
                exact ⟨c, hc, hphase ▸ hwriting, hle⟩
              refine ⟨henabled', fun t' ht' => ?_⟩
              have hok := step_wrote henabled
              obtain rfl := AbortingRun.ok_unique (step_wrote henabled') ht'
              have hreading : (s.afterWrite n err).phase = (s'.afterWrite n err).phase := rfl
              exact ih hreading (hlater _ hok)

/-- The same call, with bytes that are all `b`. -/
def Event.painted (b : UInt8) : Event → Event
  | .read data err => .read (List.replicate data.length b) err
  | .wrote n err => .wrote n err

theorem sameResult_painted (b : UInt8) (event : Event) : event.SameResult (event.painted b) := by
  cases event with
  | read data err => exact ⟨List.length_replicate.symm, rfl⟩
  | wrote n err => exact ⟨rfl, rfl⟩

theorem sameResults_painted (b : UInt8) (history : List Event) :
    SameResults history (history.map (Event.painted b)) :=
  List.forall₂_map_right_iff.mpr (List.forall₂_same.mpr fun event _ => sameResult_painted b event)

/-- One painted call adds bytes of one kind to what was read and accepted. -/
theorem step_painted {b : UInt8} {s t : Loop} {event : Event}
    (henabled : Enabled s (event.painted b)) (hcurrent : ∀ x ∈ s.current, x = b)
    (hstep : step s (event.painted b) = .ok t) :
    ∃ read accepted, t.read = s.read ++ read ∧ t.accepted = s.accepted ++ accepted ∧
      (∀ x ∈ read, x = b) ∧ (∀ x ∈ accepted, x = b) ∧ ∀ x ∈ t.current, x = b := by
  cases event with
  | read data err =>
      obtain ⟨buf, count, hbuf, hok⟩ := step_read henabled
      obtain rfl := AbortingRun.ok_unique hok hstep
      have hpainted : ∀ x ∈ List.replicate data.length b, x = b :=
        fun x hx => List.eq_of_mem_replicate hx
      refine ⟨_, [], rfl, (List.append_nil _).symm, hpainted, List.forall_mem_nil _, ?_⟩
      rcases s.afterRead_cases err count hbuf with ⟨-, hnone, -⟩ | ⟨-, hdata⟩
      · rw [hnone]
        exact List.forall_mem_nil _
      · rw [hdata]
        exact hpainted
  | wrote n err =>
      obtain rfl := AbortingRun.ok_unique (step_wrote henabled) hstep
      exact ⟨[], _, (List.append_nil _).symm, rfl, List.forall_mem_nil _,
        fun x hx => hcurrent x (List.mem_of_mem_take hx), List.forall_mem_nil _⟩

/-- So do painted calls one after the other. -/
theorem run_painted {b : UInt8} {s t : Loop} {events : List Event}
    (henabled : AbortingRun.EachStep step Enabled s (events.map (Event.painted b)))
    (hcurrent : ∀ x ∈ s.current, x = b)
    (hrun : AbortingRun.run step s (events.map (Event.painted b)) = .ok t) :
    ∃ read accepted, t.read = s.read ++ read ∧ t.accepted = s.accepted ++ accepted ∧
      (∀ x ∈ read, x = b) ∧ (∀ x ∈ accepted, x = b) ∧ ∀ x ∈ t.current, x = b := by
  induction events generalizing s with
  | nil =>
      cases hrun
      exact ⟨[], [], (List.append_nil _).symm, (List.append_nil _).symm, List.forall_mem_nil _,
        List.forall_mem_nil _, hcurrent⟩
  | cons event events ih =>
      obtain ⟨hevent, hlater⟩ := henabled
      rw [List.map_cons, AbortingRun.run_cons, AbortingRun.bind_eq_ok] at hrun
      obtain ⟨u, hstep, hrun⟩ := hrun
      obtain ⟨read, accepted, hread, haccepted, hreads, haccepts, hcurrent'⟩ :=
        step_painted hevent hcurrent hstep
      obtain ⟨read', accepted', hread', haccepted', hreads', haccepts', hlast⟩ :=
        ih (hlater u hstep) hcurrent' hrun
      refine ⟨read ++ read', accepted ++ accepted', ?_, ?_, ?_, ?_, hlast⟩
      · rw [hread', hread, List.append_assoc]
      · rw [haccepted', haccepted, List.append_assoc]
      · exact List.forall_mem_append.mpr ⟨hreads, hreads'⟩
      · exact List.forall_mem_append.mpr ⟨haccepts, haccepts'⟩

/-- Behind a gap in ones, something else than a one is no echo. -/
theorem not_prefix_of_gap {accepted read more rest : List UInt8} {x : UInt8}
    (hread : ∀ y ∈ read, y = 1) (hgap : accepted.length < read.length) (hx : x ≠ 1) :
    ¬accepted ++ x :: more <+: read ++ rest := by
  intro h
  have hnext := h.getElem (i := accepted.length) (by simp)
  rw [List.getElem_append_right le_rfl, List.getElem_append_left hgap] at hnext
  simp only [Nat.sub_self, List.getElem_cons_zero] at hnext
  exact hx (hnext.trans (hread _ (List.getElem_mem _)))

/-- A run whose last call was a write is about to read. -/
theorem reading_of_wrote {before : List Event} {n : ℕ} {err : Bool} {s : Loop}
    (h : Delivered (before ++ [.wrote n err]))
    (hrun : AbortingRun.run step start (before ++ [.wrote n err]) = .ok s) :
    s.phase = .reading := by
  obtain ⟨u, hu, hlast⟩ := (AbortingRun.run_concat_eq_ok step).mp hrun
  rw [step_wrote (AbortingRun.eachStep_at h List.prefix_rfl hu)] at hlast
  cases hlast
  rfl

/-- What is accepted behind a gap in ones, when all reads from there on return zeros, is no
echo. -/
theorem not_echoes_of_gap {s u : Loop} (hone : ∀ y ∈ s.read, y = 1)
    (hgap : s.accepted.length < s.read.length) (hcurrent : s.current = []) {second : List Event}
    (henabled : AbortingRun.EachStep step Enabled s (second.map (Event.painted 0)))
    (hrun : AbortingRun.run step s (second.map (Event.painted 0)) = .ok u) {n : ℕ} {err : Bool}
    (hle : n ≤ u.current.length) (hpos : n ≠ 0) : ¬Echoes (u.afterWrite n err) := by
  obtain ⟨read, accepted, hread, haccepted, -, hzeros, hzero⟩ :=
    run_painted henabled (by simp [hcurrent]) hrun
  -- the first byte that is accepted behind the gap
  have hbehind : ∀ x ∈ accepted ++ u.current.take n, x = 0 :=
    List.forall_mem_append.mpr ⟨hzeros, fun x hx => hzero x (List.mem_of_mem_take hx)⟩
  have hsome : accepted ++ u.current.take n ≠ [] := by
    apply List.ne_nil_of_length_pos
    rw [List.length_append, List.length_take]
    omega
  obtain ⟨x, more, hcons⟩ := List.exists_cons_of_ne_nil hsome
  have hx : x = 0 := hbehind x (hcons ▸ List.mem_cons_self)
  intro hechoes
  have hprefix : u.accepted ++ u.current.take n <+: u.read := hechoes.accepted
  rw [haccepted, List.append_assoc, hcons, hread] at hprefix
  exact not_prefix_of_gap hone hgap (by rw [hx]; decide) hprefix

/-- **A gap shows** with the right bytes: when something is accepted after a short write,
there are bytes with which the loop does not echo. -/
theorem exists_not_echoes {before second : List Event} {m n : ℕ} {werr err : Bool}
    (h : Delivered (before ++ [.wrote m werr] ++ (second ++ [.wrote n err])))
    (hshort : Short (before ++ [.wrote m werr])) (hpos : n ≠ 0) :
    ∃ history, SameResults (before ++ [.wrote m werr] ++ (second ++ [.wrote n err])) history ∧
      ¬AbortingRun.Always step Echoes start history := by
  obtain ⟨first, hfirst⟩ : ∃ first, first = before ++ [Event.wrote m werr] := ⟨_, rfl⟩
  rw [← hfirst] at h hshort ⊢
  -- ones up to the gap, and zeros from there on
  have hsame := List.rel_append (sameResults_painted 1 first)
    (sameResults_painted 0 (second ++ [Event.wrote n err]))
  have hdelivered := eachStep_enabled_of_sameResults hsame rfl h
  refine ⟨_, hsame, fun halways => ?_⟩
  obtain ⟨hones, hsecond⟩ := AbortingRun.eachStep_append.mp hdelivered
  obtain ⟨s, hs⟩ := AbortingRun.exists_run_of_eachStep step_returns hones
  obtain ⟨read, -, hread, -, hone, -⟩ := run_painted hones (List.forall_mem_nil _) hs
  have hgap := (recorded_of_run hones hs).gap (hshort.of_sameResults (sameResults_painted 1 _))
  have hcurrent : s.current = [] := by
    rw [hfirst, List.map_append] at hones hs
    exact Loop.current_of_reading (reading_of_wrote hones hs)
  rw [hcurrent, List.length_nil, Nat.add_zero] at hgap
  rw [List.map_append] at hsecond halways
  obtain ⟨hmiddle, hlast⟩ := AbortingRun.eachStep_append.mp (hsecond s hs)
  obtain ⟨u, hu⟩ := AbortingRun.exists_run_of_eachStep step_returns hmiddle
  have henabled : Enabled u (.wrote n err) := (hlast u hu).1
  have hrun : AbortingRun.run step start (first.map (Event.painted 1) ++
      (second.map (Event.painted 0) ++ [.wrote n err])) = .ok _ :=
    (AbortingRun.run_append_eq_ok step).mpr ⟨s, hs,
      (AbortingRun.run_concat_eq_ok step).mpr ⟨u, hu, step_wrote henabled⟩⟩
  obtain ⟨c, -, hphase, hle, -⟩ := henabled
  have hlength : u.current.length = c := by
    have hwhole : AbortingRun.run step start (first.map (Event.painted 1) ++
        second.map (Event.painted 0)) = .ok u :=
      (AbortingRun.run_append_eq_ok step).mpr ⟨s, hs, hu⟩
    refine ((recorded_of_run ?_ hwhole).given c hphase).1
    exact AbortingRun.eachStep_append.mpr ⟨hones, fun t ht => by
      obtain rfl := AbortingRun.ok_unique hs ht
      exact hmiddle⟩
  refine not_echoes_of_gap ?_ hgap hcurrent hmiddle hu (hlength ▸ hle) hpos
    (AbortingRun.always_iff.mp halways _ _ List.prefix_rfl hrun)
  intro y hy
  rw [hread] at hy
  exact hone y hy

/-- What comes with the end of the stream is lost, unless a write has failed before. -/
theorem allowed_read {before : List Event} {data : List UInt8} {err : Option ReadError}
    (h : Delivered (before ++ [.read data err]))
    (halways : AbortingRun.Always step Echoes start (before ++ [.read data err])) :
    Allowed before (.read data err) := by
  intro heof
  have hbefore := (AbortingRun.eachStep_append.mp h).1
  obtain ⟨s, hs⟩ := AbortingRun.exists_run_of_eachStep step_returns hbefore
  have hrecorded := recorded_of_run hbefore hs
  obtain ⟨buf, count, -, hok⟩ := step_read (AbortingRun.eachStep_at h List.prefix_rfl hs)
  have hrun : AbortingRun.run step start (before ++ [.read data err]) = .ok _ :=
    (AbortingRun.run_concat_eq_ok step).mpr ⟨s, hs, hok⟩
  have hechoes := AbortingRun.always_iff.mp halways _ _ List.prefix_rfl hrun
  by_cases hfailed : s.writeFailed = true
  · exact Or.inr (hrecorded.failed.mp hfailed)
  · have hall : s.accepted = s.read ++ data :=
      hechoes.complete (if_pos heof) (Bool.eq_false_of_not_eq_true hfailed)
    have hle := hrecorded.accepted_le
    rw [hall, List.length_append] at hle
    exact Or.inl (List.eq_nil_of_length_eq_zero (by omega))

/-- **The loop echoes for all bytes exactly when the results of the calls keep up**: in every
run with such results, and, for results that do not, not in every run with the same lengths
and errors. -/
theorem echoes_iff {history : List Event} (h : Delivered history) :
    (∀ history', SameResults history history' →
      AbortingRun.Always step Echoes start history') ↔ KeepsUp history := by
  constructor
  · intro hechoes before event hprefix
    obtain ⟨after, rfl⟩ := hprefix
    have hdelivered : Delivered (before ++ [event]) := (AbortingRun.eachStep_append.mp h).1
    have halways : ∀ history', SameResults (before ++ [event]) history' →
        AbortingRun.Always step Echoes start history' := fun history' hsame =>
      AbortingRun.always_of_prefix
        (hechoes (history' ++ after) (List.rel_append hsame (SameResults.refl after)))
        (List.prefix_append _ _)
    cases event with
    | read data err => exact allowed_read hdelivered (halways _ (.refl _))
    | wrote n err =>
        rintro ⟨data, rerr, m, werr, ⟨first, second, rfl⟩, hlt⟩
        by_contra hpos
        have hpair : first ++ [.read data rerr, .wrote m werr] =
            first ++ [.read data rerr] ++ [.wrote m werr] := by
          rw [List.append_assoc]
          rfl
        rw [hpair, List.append_assoc] at hdelivered halways
        have hshort : Short (first ++ [.read data rerr] ++ [.wrote m werr]) :=
          .concat_wrote (List.suffix_append _ _) werr hlt
        obtain ⟨history', hsame, hnot⟩ := exists_not_echoes hdelivered hshort hpos
        exact hnot (halways history' hsame)
  · intro hkeeps history' hsame
    exact always_echoes (eachStep_enabled_of_sameResults hsame rfl h)
      (hkeeps.of_sameResults hsame)

instance (s : Loop) (event : Event) : Decidable (Enabled s event) :=
  match event with
  | .read data _ => inferInstanceAs (Decidable (s.phase = .reading ∧ data.length ≤ bufSize))
  | .wrote n err =>
      match h : s.phase with
      | .writing c => decidable_of_iff (c ≤ bufSize ∧ n ≤ c ∧ (n < c → err = true)) (by
          simp [Enabled, h])
      | .reading => .isFalse (by simp [Enabled, h])
      | .ended _ => .isFalse (by simp [Enabled, h])

/-- Two reads, of which the second one returns an error with its bytes, and the end. -/
def withError : List Event :=
  [.read [1, 2, 3] none, .wrote 3 false, .read [4] (some .other), .wrote 1 false,
    .read [] (some .eof)]

theorem echoes_iff_withError :
    (∀ history', SameResults withError history' →
      AbortingRun.Always step Echoes start history') ↔ KeepsUp withError :=
  echoes_iff (AbortingRun.eachStep_of_runEnabled (by decide +kernel))

/-- A write that accepts one of two bytes, and is followed by another read and write. -/
def shortWrite : List Event :=
  [.read [1, 2] none, .wrote 1 true, .read [3] none, .wrote 1 false]

/-- The second byte is missing. -/
theorem not_echoes_shortWrite :
    Delivered shortWrite ∧ ¬AbortingRun.Always step Echoes start shortWrite := by
  refine ⟨AbortingRun.eachStep_of_runEnabled (by decide +kernel), ?_⟩
  intro halways
  obtain ⟨s, hs, haccepted, hread⟩ : ∃ s, AbortingRun.run step start shortWrite = .ok s ∧
      s.accepted = [1, 3] ∧ s.read = [1, 2, 3] := ⟨_, rfl, by decide +kernel, by decide +kernel⟩
  have hechoes := (AbortingRun.always_iff.mp halways shortWrite s List.prefix_rfl hs).accepted
  rw [haccepted, hread] at hechoes
  exact absurd hechoes (by decide)

end LearnUv.GoPingPong
