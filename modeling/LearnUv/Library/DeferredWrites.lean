import Mathlib.Algebra.Ring.Nat
import Mathlib.Data.List.Basic

/-!
# Deferred writes

A program hands ranges of a memory to a transport, which copies them out later, in the
order of submission and in pieces of any size.  What leaves is what the memory holds
when a piece is copied, so a program that reuses its memory has to leave alone what is
still queued.

## Main Definitions

* `Transport` — the ranges that are queued, and what has left
* `view` — what would leave if everything that is queued were copied now
* `InOrder` — what has left, and what would, is what the transport was given
* `Spares` — a change of the memory leaves the queued ranges alone
* `Within` — what is queued lies in a front part of the memory
* `Whole` — every write is of the whole memory

## Main Results

* `InOrder.flush` — copying out keeps the order, whatever the size of the piece
* `InOrder.submit_iff` — a new write keeps it exactly when it spares the queued ranges
* `Within.mem_out_flush`, `Whole.getElem?_flush` — what leaves was in the memory, and where
-/

namespace DeferredWrites

universe u

variable {α : Type u}

/-- What would leave if the ranges (start and length) were copied out of the memory now. -/
def view (memory : List α) (pending : List (ℕ × ℕ)) : List α :=
  (pending.map fun range => (memory.drop range.1).take range.2).flatten

@[simp] theorem view_nil (memory : List α) : view memory [] = [] := rfl

/-- The queue is read from the oldest write on. -/
theorem view_cons (memory : List α) (range : ℕ × ℕ) (pending : List (ℕ × ℕ)) :
    view memory (range :: pending) =
      (memory.drop range.1).take range.2 ++ view memory pending := rfl

/-- A write of the front of the memory adds that front to what will leave. -/
theorem view_concat (memory : List α) (pending : List (ℕ × ℕ)) (len : ℕ) :
    view memory (pending ++ [(0, len)]) = view memory pending ++ memory.take len := by
  simp [view]

/-- The queue of a transport, and what it has copied out. -/
structure Transport (α : Type u) where
  pending : List (ℕ × ℕ)
  out : List α

namespace Transport

/-- Nothing submitted yet. -/
def idle : Transport α := ⟨[], []⟩

/-- The first `len` symbols of the memory are to be written. -/
def submit (q : Transport α) (len : ℕ) : Transport α :=
  { q with pending := q.pending ++ [(0, len)] }

/-- At most `k` symbols of the oldest write are copied out. -/
def flush (memory : List α) (k : ℕ) (q : Transport α) : Transport α :=
  match q.pending with
  | [] => q
  | (start, len) :: rest =>
      { pending := if len ≤ k then rest else (start + k, len - k) :: rest
        out := q.out ++ (memory.drop start).take (min k len) }

end Transport

/-- What has left, followed by what is queued, is what the transport was given. -/
def InOrder (memory : List α) (q : Transport α) (given : List α) : Prop :=
  q.out ++ view memory q.pending = given

/-- The two memories agree on the ranges. -/
def Spares (memory memory' : List α) (pending : List (ℕ × ℕ)) : Prop :=
  ∀ range ∈ pending, ∀ i < range.1 + range.2, range.1 ≤ i → memory'[i]? = memory[i]?

/-- Two memories agree on one range. -/
theorem take_drop_eq_iff {memory memory' : List α} {start len : ℕ} :
    (memory'.drop start).take len = (memory.drop start).take len ↔
      ∀ i < start + len, start ≤ i → memory'[i]? = memory[i]? := by
  constructor
  · intro heq i hend hstart
    have hget := congrArg (fun xs => xs[i - start]?) heq
    rw [List.getElem?_take_of_lt (by omega), List.getElem?_take_of_lt (by omega),
      List.getElem?_drop, List.getElem?_drop] at hget
    rwa [Nat.add_sub_cancel' hstart] at hget
  · intro h
    refine List.ext_getElem? ?_
    intro i
    by_cases hi : i < len
    · rw [List.getElem?_take_of_lt hi, List.getElem?_take_of_lt hi, List.getElem?_drop,
        List.getElem?_drop]
      exact h (start + i) (by omega) (by omega)
    · rw [List.getElem?_take_eq_none (by omega), List.getElem?_take_eq_none (by omega)]

/-- **What is queued is unchanged exactly when the ranges are spared.** -/
theorem view_eq_iff {memory memory' : List α} (hlen : memory'.length = memory.length)
    {pending : List (ℕ × ℕ)} :
    view memory' pending = view memory pending ↔ Spares memory memory' pending := by
  induction pending with
  | nil => simp [Spares]
  | cons range pending ih =>
      rw [view_cons, view_cons]
      constructor
      · intro heq
        have hlengths : ((memory'.drop range.1).take range.2).length =
            ((memory.drop range.1).take range.2).length := by
          simp [hlen]
        obtain ⟨hrange, hrest⟩ := List.append_inj heq hlengths
        intro r hr
        rcases List.mem_cons.mp hr with rfl | hr
        · exact take_drop_eq_iff.mp hrange
        · exact ih.mp hrest r hr
      · intro h
        rw [take_drop_eq_iff.mpr (h range List.mem_cons_self),
          ih.mpr fun r hr => h r (List.mem_cons_of_mem _ hr)]

/-- Where nothing was submitted nothing leaves. -/
theorem inOrder_idle (memory : List α) : InOrder memory .idle [] := rfl

/-- **Copying out keeps the order**: what a piece adds to the output it takes off the
queue. -/
theorem InOrder.flush {memory : List α} {q : Transport α} {given : List α}
    (h : InOrder memory q given) (k : ℕ) : InOrder memory (q.flush memory k) given := by
  obtain ⟨pending, out⟩ := q
  cases pending with
  | nil => exact h
  | cons range rest =>
      obtain ⟨start, len⟩ := range
      rw [← h]
      show (out ++ (memory.drop start).take (min k len)) ++
        view memory (if len ≤ k then rest else (start + k, len - k) :: rest) =
          out ++ view memory ((start, len) :: rest)
      rw [view_cons, List.append_assoc]
      refine congrArg (out ++ ·) ?_
      split
      · next hle => rw [Nat.min_eq_right hle]
      · next hgt =>
          have hsplit : (memory.drop start).take len =
              (memory.drop start).take k ++ (memory.drop (start + k)).take (len - k) := by
            rw [← List.drop_drop, ← List.take_add]
            congr 1
            omega
          rw [Nat.min_eq_left (by omega), view_cons, ← List.append_assoc, ← hsplit]

/-- A change of the memory keeps the order exactly when it spares what is queued. -/
theorem InOrder.memory_iff {memory memory' : List α} {q : Transport α} {given : List α}
    (h : InOrder memory q given) (hlen : memory'.length = memory.length) :
    InOrder memory' q given ↔ Spares memory memory' q.pending := by
  rw [← view_eq_iff hlen, ← h]
  exact List.append_right_inj q.out

/-- **A new write keeps the order exactly when it spares what is queued.** -/
theorem InOrder.submit_iff {memory memory' : List α} {q : Transport α} {given : List α}
    (h : InOrder memory q given) (hlen : memory'.length = memory.length) (len : ℕ) :
    InOrder memory' (q.submit len) (given ++ memory'.take len) ↔
      Spares memory memory' q.pending := by
  rw [← view_eq_iff hlen, ← h]
  show q.out ++ view memory' (q.pending ++ [(0, len)]) = _ ↔ _
  rw [view_concat, ← List.append_assoc, List.append_left_inj, List.append_right_inj]

/-- In order, and nothing queued: everything that was given has left. -/
theorem InOrder.out_eq {memory : List α} {q : Transport α} {given : List α}
    (h : InOrder memory q given) (hdone : q.pending = []) : q.out = given := by
  rw [← h, hdone, view_nil, List.append_nil]

/-- In order: nothing else has left. -/
theorem InOrder.prefix_given {memory : List α} {q : Transport α} {given : List α}
    (h : InOrder memory q given) : q.out <+: given := ⟨_, h⟩

/-! ## Writes from the front of a memory -/

section Within

variable {size : ℕ} {q : Transport α}

/-- The symbols that have left, and those that are queued. -/
def Transport.total (q : Transport α) : ℕ := q.out.length + (q.pending.map Prod.snd).sum

/-- A submission adds its length to what is to leave. -/
theorem Transport.total_submit (q : Transport α) (len : ℕ) :
    (q.submit len).total = q.total + len := by
  simp [Transport.total, Transport.submit, Nat.add_assoc]

/-- What is queued lies in the first `size` places. -/
def Within (size : ℕ) (q : Transport α) : Prop :=
  ∀ range ∈ q.pending, range.1 + range.2 ≤ size

theorem within_idle (size : ℕ) : Within size (Transport.idle : Transport α) :=
  List.forall_mem_nil _

/-- What lies in a part of the memory lies in a larger part. -/
theorem Within.mono (h : Within size q) {size' : ℕ} (hle : size ≤ size') : Within size' q :=
  fun range hrange => Nat.le_trans (h range hrange) hle

/-- A write of the front stays in the part it is the front of, -/
theorem Within.submit (h : Within size q) {len : ℕ} (hlen : len ≤ size) :
    Within size (q.submit len) := by
  intro range hrange
  rcases List.mem_append.mp hrange with hold | hnew
  · exact h range hold
  · rw [List.mem_singleton.mp hnew, Nat.zero_add]
    exact hlen

/-- and copying out only shortens ranges. -/
theorem Within.flush (h : Within size q) (memory : List α) (k : ℕ) :
    Within size (q.flush memory k) := by
  obtain ⟨pending, out⟩ := q
  cases pending with
  | nil => exact h
  | cons range rest =>
      obtain ⟨start, len⟩ := range
      obtain ⟨hrange, hrest⟩ := List.forall_mem_cons.mp h
      change start + len ≤ size at hrange
      show ∀ later ∈ if len ≤ k then rest else (start + k, len - k) :: rest,
        later.1 + later.2 ≤ size
      split
      · exact hrest
      · refine List.forall_mem_cons.mpr ⟨?_, hrest⟩
        show start + k + (len - k) ≤ size
        omega

/-- **What leaves was in the memory.** -/
theorem Within.mem_out_flush (h : Within size q) {memory : List α} {k : ℕ} {a : α}
    (ha : a ∈ (q.flush memory k).out) : a ∈ q.out ∨ ∃ i < size, memory[i]? = some a := by
  obtain ⟨pending, out⟩ := q
  cases pending with
  | nil => exact Or.inl ha
  | cons range rest =>
      obtain ⟨start, len⟩ := range
      have hrange : start + len ≤ size := h _ List.mem_cons_self
      rcases List.mem_append.mp ha with hold | hnew
      · exact Or.inl hold
      · obtain ⟨i, hi⟩ := List.mem_iff_getElem?.mp hnew
        obtain ⟨hlt, -⟩ := List.getElem?_eq_some_iff.mp hi
        rw [List.length_take] at hlt
        rw [List.getElem?_take_of_lt (by omega), List.getElem?_drop] at hi
        exact Or.inr ⟨start + i, by omega, hi⟩

/-- Copying out takes from the queue what it adds to the output. -/
theorem Within.total_flush (h : Within size q) {memory : List α} (hsize : size ≤ memory.length)
    (k : ℕ) : (q.flush memory k).total = q.total := by
  obtain ⟨pending, out⟩ := q
  cases pending with
  | nil => rfl
  | cons range rest =>
      obtain ⟨start, len⟩ := range
      have hrange : start + len ≤ size := h _ List.mem_cons_self
      by_cases hle : len ≤ k
      · simp only [Transport.total, Transport.flush, if_pos hle, List.length_append,
          List.length_take, List.length_drop, List.map_cons, List.sum_cons]
        omega
      · simp only [Transport.total, Transport.flush, if_neg hle, List.length_append,
          List.length_take, List.length_drop, List.map_cons, List.sum_cons]
        omega

end Within

/-! ## Writes of a whole memory -/

section Whole

variable {width : ℕ} {q : Transport α}

/-- Every write is of `width` symbols, and what has left ends where the oldest write goes
on. -/
def Whole (width : ℕ) (q : Transport α) : Prop :=
  match q.pending with
  | [] => q.out.length % width = 0
  | range :: rest => range.1 < width ∧ range.1 + range.2 = width ∧
      q.out.length % width = range.1 ∧ ∀ later ∈ rest, later = (0, width)

theorem whole_idle (width : ℕ) : Whole width (Transport.idle : Transport α) :=
  Nat.zero_mod width

/-- A write of a whole block is queued as one, -/
theorem Whole.submit (h : Whole width q) (hwidth : 0 < width) : Whole width (q.submit width) := by
  obtain ⟨pending, out⟩ := q
  cases pending with
  | nil => exact ⟨hwidth, Nat.zero_add width, h, List.forall_mem_nil _⟩
  | cons range rest =>
      obtain ⟨hstart, hend, hout, hlater⟩ := h
      refine ⟨hstart, hend, hout, fun later hmem => ?_⟩
      rcases List.mem_append.mp hmem with hold | hnew
      · exact hlater later hold
      · exact List.mem_singleton.mp hnew

/-- and what is left of a block that is copied out ends where the block does. -/
theorem Whole.flush (h : Whole width q) {memory : List α} (hlen : memory.length = width)
    (k : ℕ) : Whole width (q.flush memory k) := by
  obtain ⟨pending, out⟩ := q
  cases pending with
  | nil => exact h
  | cons range rest =>
      obtain ⟨start, len⟩ := range
      obtain ⟨hstart, hend, hout, hlater⟩ := h
      change start < width at hstart
      change start + len = width at hend
      change out.length % width = start at hout
      have hpiece : ((memory.drop start).take (min k len)).length = min k len := by
        rw [List.length_take, List.length_drop]
        omega
      have hmod : (out ++ (memory.drop start).take (min k len)).length % width =
          (start + min k len) % width := by
        rw [List.length_append, hpiece, ← Nat.mod_add_mod, hout]
      by_cases hle : len ≤ k
      · -- the oldest write is over, and the next one begins
        rw [Nat.min_eq_right hle, hend, Nat.mod_self] at hmod
        show Whole width
          { pending := if len ≤ k then rest else (start + k, len - k) :: rest
            out := out ++ (memory.drop start).take (min k len) }
        rw [if_pos hle, Nat.min_eq_right hle]
        cases rest with
        | nil => exact hmod
        | cons next rest =>
            obtain ⟨rfl, hrest⟩ := List.forall_mem_cons.mp hlater
            exact ⟨by omega, Nat.zero_add width, hmod, hrest⟩
      · have hmin : min k len = k := Nat.min_eq_left (by omega)
        have hplace : (start + k) % width = start + k := Nat.mod_eq_of_lt (by omega)
        rw [hmin, hplace] at hmod
        show Whole width
          { pending := if len ≤ k then rest else (start + k, len - k) :: rest
            out := out ++ (memory.drop start).take (min k len) }
        have hwithin : start + k < width := by omega
        have hrest : start + k + (len - k) = width := by omega
        rw [if_neg hle, hmin]
        exact ⟨hwithin, hrest, hmod, hlater⟩

/-- **What leaves was at its place in the memory.** -/
theorem Whole.getElem?_flush (h : Whole width q) {memory : List α}
    (hlen : memory.length = width) {k i : ℕ} {a : α}
    (hleft : (q.flush memory k).out[i]? = some a) :
    q.out[i]? = some a ∨ memory[i % width]? = some a := by
  obtain ⟨pending, out⟩ := q
  cases pending with
  | nil => exact Or.inl hleft
  | cons range rest =>
      obtain ⟨start, len⟩ := range
      obtain ⟨hstart, hend, hout, -⟩ := h
      change start < width at hstart
      change start + len = width at hend
      change out.length % width = start at hout
      change (out ++ (memory.drop start).take (min k len))[i]? = some a at hleft
      rcases Nat.lt_or_ge i out.length with hold | hnew
      · rw [List.getElem?_append_left hold] at hleft
        exact Or.inl hleft
      · rw [List.getElem?_append_right hnew] at hleft
        obtain ⟨hlt, -⟩ := List.getElem?_eq_some_iff.mp hleft
        rw [List.length_take, List.length_drop] at hlt
        rw [List.getElem?_take_of_lt (by omega), List.getElem?_drop] at hleft
        have hplace : i % width = start + (i - out.length) := by
          rw [← Nat.mod_eq_of_lt (show start + (i - out.length) < width by omega), ← hout,
            Nat.mod_add_mod, Nat.add_sub_cancel' hnew]
        exact Or.inr (hplace ▸ hleft)

/-- Blocks of that width lie in memory of that width. -/
theorem Whole.within (h : Whole width q) : Within width q := by
  obtain ⟨pending, out⟩ := q
  cases pending with
  | nil => exact List.forall_mem_nil _
  | cons range rest =>
      obtain ⟨-, hend, -, hlater⟩ := h
      refine List.forall_mem_cons.mpr ⟨Nat.le_of_eq hend, fun later hmem => ?_⟩
      rw [hlater later hmem, Nat.zero_add]

end Whole

end DeferredWrites
