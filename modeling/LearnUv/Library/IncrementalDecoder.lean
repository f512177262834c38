import Mathlib.Data.List.Basic
import Mathlib.Data.List.Infix

/-!
# Incremental decoders

A decoder of a stream of symbols holds the symbols it has not consumed yet, and
each time a chunk arrives it takes messages off their front for as long as it can.
What makes such a decoder independent of the fragmentation of its input is one
property of the single step: a message that can be taken off some symbols can be
taken off every extension of them, with the extension left behind.

## Main Definitions

* `IncrementalDecoder` — one decoding step, with the two laws it obeys
* `drain` — the messages a list of symbols yields, and the symbols left over
* `Dead` — symbols at the front of which there will never be a message

## Main Results

* `drain_append` — draining a prefix first changes nothing, so any fragmentation of a
  stream decodes as the whole stream
* `Dead.drain_eq` — at a dead end everything is left over
* `flatten_drain` — a decoder that recognises rendered messages conserves symbols
* `drain_flatten` — and undoes rendering where it accepts what is rendered
-/

universe u v

/-- One decoding step over symbols `α` that yields messages `β`. -/
structure IncrementalDecoder (α : Type u) (β : Type v) where
  /-- Take one message off the front, if there is one. -/
  next : List α → Option (β × List α)
  /-- A message takes up at least one symbol. -/
  length_lt : ∀ {xs : List α} {m : β} {rest : List α},
    next xs = some (m, rest) → rest.length < xs.length
  /-- Symbols that arrive later do not change the message at the front. -/
  next_append : ∀ {xs : List α} {m : β} {rest : List α} (ys : List α),
    next xs = some (m, rest) → next (xs ++ ys) = some (m, rest ++ ys)

namespace IncrementalDecoder

variable {α : Type u} {β : Type v} (D : IncrementalDecoder α β)

/-- Take messages off the front until there is none: the messages, and the
symbols left over. -/
def drain (xs : List α) : List β × List α :=
  match _h : D.next xs with
  | none => ([], xs)
  | some (m, rest) => (m :: (drain rest).1, (drain rest).2)
termination_by xs.length
decreasing_by all_goals exact D.length_lt _h

variable {D}

/-- Where nothing is taken off nothing is drained. -/
theorem drain_of_none {xs : List α} (h : D.next xs = none) : D.drain xs = ([], xs) := by
  unfold drain
  split
  · rfl
  · next h' => rw [h] at h'; cases h'

/-- A message that is taken off is drained before the others. -/
theorem drain_of_some {xs rest : List α} {m : β} (h : D.next xs = some (m, rest)) :
    D.drain xs = (m :: (D.drain rest).1, (D.drain rest).2) := by
  conv_lhs => unfold drain
  split
  · next h' => rw [h] at h'; cases h'
  · next h' => rw [h] at h'; cases h'; rfl

/-- **Induction along the messages of a stream.**  Either the stream yields
nothing, or it yields a message and the property is known of the rest. -/
theorem drain_induction {P : List α → Prop}
    (stuck : ∀ xs, D.next xs = none → P xs)
    (message : ∀ xs m rest, D.next xs = some (m, rest) → P rest → P xs)
    (xs : List α) : P xs := by
  induction hlen : xs.length using Nat.strong_induction_on generalizing xs with
  | _ n ih =>
      cases h : D.next xs with
      | none => exact stuck xs h
      | some p =>
          obtain ⟨m, rest⟩ := p
          have hlt := D.length_lt h
          exact message xs m rest h (ih rest.length (by omega) rest rfl)

variable (D)

@[simp] theorem next_nil : D.next [] = none := by
  cases h : D.next [] with
  | none => rfl
  | some p => exact absurd (D.length_lt h) (by simp)

@[simp] theorem drain_nil : D.drain [] = ([], []) := drain_of_none D.next_nil

/-- What is left over yields nothing more. -/
@[simp] theorem next_drain (xs : List α) : D.next (D.drain xs).2 = none := by
  induction xs using drain_induction (D := D) with
  | stuck xs h => rwa [drain_of_none h]
  | message xs m rest h ih => rwa [drain_of_some h]

/-! ## Independence of the fragmentation -/

/-- **Draining early changes nothing.**  The messages of a concatenation are those
of its first part, followed by those of the second part placed after what the
first part left over. -/
theorem drain_append (xs ys : List α) :
    D.drain (xs ++ ys) =
      ((D.drain xs).1 ++ (D.drain ((D.drain xs).2 ++ ys)).1,
        (D.drain ((D.drain xs).2 ++ ys)).2) := by
  induction xs using drain_induction (D := D) with
  | stuck xs h => rw [drain_of_none h, List.nil_append]
  | message xs m rest h ih => rw [drain_of_some (D.next_append ys h), drain_of_some h, ih,
      List.cons_append]

/-! ## Dead ends -/

/-- No message can be taken off, whatever arrives. -/
def Dead (xs : List α) : Prop := ∀ ys, D.next (xs ++ ys) = none

variable {D} in
/-- **Nothing is ever taken off again**: what arrives at a dead end is left over. -/
theorem Dead.drain_eq {xs : List α} (h : D.Dead xs) (ys : List α) :
    D.drain (xs ++ ys) = ([], xs ++ ys) :=
  drain_of_none (h ys)

/-! ## Decoders of rendered messages -/

section Render

variable (render : β → List α)

/-- Every message is taken off as exactly the symbols that render it. -/
def Recognises : Prop :=
  ∀ {xs : List α} {m : β} {rest : List α},
    D.next xs = some (m, rest) → xs = render m ++ rest

variable {D render}

/-- **No symbol is lost, duplicated or invented**: the rendered messages followed
by the symbols left over are the stream. -/
theorem flatten_drain (hrec : D.Recognises render) (xs : List α) :
    ((D.drain xs).1.map render).flatten ++ (D.drain xs).2 = xs := by
  induction xs using drain_induction (D := D) with
  | stuck xs h => simp [drain_of_none h]
  | message xs m rest h ih =>
      rw [drain_of_some h, List.map_cons, List.flatten_cons, List.append_assoc, ih,
        ← hrec h]

/-- **Decoding undoes rendering**: a stream of rendered messages, each of which is
accepted in front of what follows it, decodes to these messages. -/
theorem drain_flatten {ms : List β} {rest : List α} (hrest : D.next rest = none)
    (haccept : ∀ m later, m :: later <:+ ms →
      D.next (render m ++ ((later.map render).flatten ++ rest)) =
        some (m, (later.map render).flatten ++ rest)) :
    D.drain ((ms.map render).flatten ++ rest) = (ms, rest) := by
  induction ms with
  | nil => simpa using drain_of_none hrest
  | cons m later ih =>
      have hnext := haccept m later List.suffix_rfl
      rw [List.map_cons, List.flatten_cons, List.append_assoc, drain_of_some hnext,
        ih fun m' later' h => haccept m' later' (h.trans (List.suffix_cons m later))]

end Render

end IncrementalDecoder
