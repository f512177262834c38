import LearnUv.Library.IncrementalDecoder

/-!
# Loops that read records

A loop reads a stream record by record, and each record changes its state.  In a turn it
reads a record and goes on, or finds no further one and is done, or fails inside of one.

What such a loop does with its state is told apart from what it reads by a decoder it
follows: it goes on exactly where the decoder takes a record off the front, and then acts on
its state as the record says.  So a loop over a concatenation, or over records that were
written one after the other, is what the decoder makes of it.

## Main Definitions

* `Turn`, `RecordLoop`, `RecordLoop.run` — a turn, a loop, and what it returns
* `RecordLoop.Follows` — the loop reads what a decoder yields

## Main Results

* `RecordLoop.run_induction` — what every turn keeps, the loop keeps
* `RecordLoop.Follows.run_append` — a loop over a concatenation
* `RecordLoop.Follows.run_flatten` — a loop over records that were written
-/

universe u v w

/-- What a turn of a loop leaves: the state, and the rest of the input. -/
inductive Turn (σ : Type u) (β : Type v)
  | done (s : σ) (rest : List β)
  | failed (s : σ) (rest : List β)
  | more (s : σ) (rest : List β)

namespace Turn

variable {σ : Type u} {β : Type v}

/-- The state it leaves. -/
def state : Turn σ β → σ
  | .done s _ => s
  | .failed s _ => s
  | .more s _ => s

/-- A turn whose last call may have failed. -/
def ofBool (ok : Bool) (s : σ) (rest : List β) : Turn σ β :=
  if ok then .more s rest else .failed s rest

@[simp] theorem ofBool_true (s : σ) (rest : List β) : ofBool true s rest = .more s rest := rfl

@[simp] theorem ofBool_false (s : σ) (rest : List β) : ofBool false s rest = .failed s rest := rfl

@[simp] theorem state_ofBool (ok : Bool) (s : σ) (rest : List β) : (ofBool ok s rest).state = s := by
  cases ok <;> rfl

/-- A turn that reports success or failure does not end the loop. -/
theorem ofBool_ne_done {ok : Bool} {s t : σ} {rest left : List β} :
    ofBool ok s rest ≠ .done t left := by
  cases ok <;> simp

/-- It goes on exactly with success. -/
theorem ofBool_eq_more {ok : Bool} {s t : σ} {rest left : List β} :
    ofBool ok s rest = .more t left ↔ ok = true ∧ s = t ∧ rest = left := by
  cases ok <;> simp

end Turn

/-- The body of a loop.  When it goes on, it has read something. -/
structure RecordLoop (σ : Type u) (β : Type v) where
  turn : σ → List β → Turn σ β
  length_lt : ∀ {s t : σ} {input rest : List β}, turn s input = .more t rest →
    rest.length < input.length

namespace RecordLoop

variable {σ : Type u} {β : Type v} {ρ : Type w} (L : RecordLoop σ β)

/-- The loop: whether it was done in the end, its state, and the rest of the input. -/
def run (s : σ) (input : List β) : Bool × σ × List β :=
  match _h : L.turn s input with
  | .done t rest => (true, t, rest)
  | .failed t rest => (false, t, rest)
  | .more t rest => run t rest
termination_by input.length
decreasing_by exact L.length_lt _h

variable {L}

/-- The loop ends with the turn that ends it, -/
theorem run_of_done {s t : σ} {input rest : List β} (h : L.turn s input = .done t rest) :
    L.run s input = (true, t, rest) := by
  rw [run]
  split
  · next h' => rw [h] at h'; cases h'; rfl
  · next h' => rw [h] at h'; cases h'
  · next h' => rw [h] at h'; cases h'

/-- fails with the turn that fails, -/
theorem run_of_failed {s t : σ} {input rest : List β} (h : L.turn s input = .failed t rest) :
    L.run s input = (false, t, rest) := by
  rw [run]
  split
  · next h' => rw [h] at h'; cases h'
  · next h' => rw [h] at h'; cases h'; rfl
  · next h' => rw [h] at h'; cases h'

/-- and goes on after any other. -/
theorem run_of_more {s t : σ} {input rest : List β} (h : L.turn s input = .more t rest) :
    L.run s input = L.run t rest := by
  conv_lhs => rw [run]
  split
  · next h' => rw [h] at h'; cases h'
  · next h' => rw [h] at h'; cases h'
  · next h' => rw [h] at h'; cases h'; rfl

/-- **What every turn keeps**, whether it goes on or not, the loop keeps. -/
theorem run_induction {P : σ → Prop} (hturn : ∀ s input, P s → P (L.turn s input).state)
    {s : σ} (hs : P s) (input : List β) : P (L.run s input).2.1 := by
  induction hlen : input.length using Nat.strong_induction_on generalizing s input with
  | _ n ih =>
      have hnext := hturn s input hs
      cases h : L.turn s input with
      | done t rest =>
          rw [run_of_done h]
          rw [h] at hnext
          exact hnext
      | failed t rest =>
          rw [run_of_failed h]
          rw [h] at hnext
          exact hnext
      | more t rest =>
          have hlt := L.length_lt h
          rw [run_of_more h]
          rw [h] at hnext
          exact ih rest.length (by omega) hnext rest rfl

/-! ## Loops that follow a decoder -/

/-- The loop goes on exactly where the decoder takes a record off the front, and acts on its
state as the record says. -/
structure Follows (L : RecordLoop σ β) (D : IncrementalDecoder β ρ) (act : σ → ρ → σ) :
    Prop where
  more : ∀ {s : σ} {input rest : List β} {record : ρ}, D.next input = some (record, rest) →
    L.turn s input = .more (act s record) rest
  stuck : ∀ {s t : σ} {input rest : List β}, D.next input = none →
    L.turn s input ≠ .more t rest

namespace Follows

open IncrementalDecoder (drain_of_none drain_of_some)

variable {D : IncrementalDecoder β ρ} {act : σ → ρ → σ}

/-- **A loop over a concatenation** goes on, with the second part behind what the decoder
leaves of the first one, from where the records of the first one lead. -/
theorem run_append (h : L.Follows D act) (s : σ) (first second : List β) :
    L.run s (first ++ second) =
      L.run ((D.drain first).1.foldl act s) ((D.drain first).2 ++ second) := by
  induction first using IncrementalDecoder.drain_induction (D := D) generalizing s with
  | stuck first hnext =>
      rw [drain_of_none hnext]
      rfl
  | message first record rest hnext ih =>
      rw [run_of_more (h.more (D.next_append second hnext)), drain_of_some hnext, ih]
      rfl

/-- So does a loop over an input. -/
theorem run_eq (h : L.Follows D act) (s : σ) (input : List β) :
    L.run s input = L.run ((D.drain input).1.foldl act s) (D.drain input).2 := by
  have hrun := h.run_append s input []
  rwa [List.append_nil, List.append_nil] at hrun

/-- **A loop over records that were written**, with something behind them, goes on behind
them. -/
theorem run_flatten (h : L.Follows D act) {render : ρ → List β} {records : List ρ}
    (haccept : ∀ record ∈ records, ∀ rest, D.next (render record ++ rest) = some (record, rest))
    (s : σ) (rest : List β) :
    L.run s ((records.map render).flatten ++ rest) = L.run (records.foldl act s) rest := by
  induction records generalizing s with
  | nil => rfl
  | cons record records ih =>
      have hnext := haccept record List.mem_cons_self ((records.map render).flatten ++ rest)
      rw [List.map_cons, List.flatten_cons, List.append_assoc, run_of_more (h.more hnext),
        ih fun r hr => haccept r (List.mem_cons_of_mem _ hr)]
      rfl

end Follows

end RecordLoop
