import LearnUv.Common.BufferSpec
import Mathlib.Logic.Function.Basic

/-!
# `Buffer` as a FIFO byte queue

A family of buffers, each constructed with its own initial size, is driven by any
sequence of operations of the class, `swap` between two of them included.  `Fifo`
is what the class is for: every buffer is a byte string, `append` extends it at the
tail and `retrieve` shortens it at the head.

The two are run side by side, a call at a time, as long as neither stops.  A buffer stands for
the bytes between its indices (`Buffer.Holds`), and every member of the class keeps that, or
does not return.  The only member that can stop where the queue goes on is `makeSpace`, in the
branch that moves the data to the front; so the refinement holds for exactly those runs in
which no `append` takes that branch.

## Main Definitions

* `Buffer.Op`, `Buffer.exec` — the operations, run on the buffers of the source
* `Fifo.apply` — the same operations on byte strings
* `Buffer.RefinesFifo` — a run in which every operation that returns does to the
  buffers what it does to the byte strings, and no `assert` fails

## Main Results

* `Buffer.exec_cases` — what one operation does
* `Buffer.refinesFifo_iff_of_holds` — a run refines the queue exactly as long as no
  `append` takes the path that moves data to the front
-/

namespace LearnUv

namespace Buffer

variable {ι : Type} [DecidableEq ι]

/-! ## Operations -/

/-- One call on the buffers of a family indexed by `ι`.  The bytes given to `append`
are those of an object in memory. -/
inductive Op (ι : Type)
  | append (i : ι) (data : CharVector)
  | writeUInt32 (i : ι) (hn : UInt32)
  | peekUInt32 (i : ι)
  | readUInt32 (i : ι)
  | retrieve (i : ι) (len : UInt64)
  | retrieveAsString (i : ι) (len : UInt64)
  | retrieveUInt32 (i : ι)
  | retrieveAll (i : ι)
  | swap (i j : ι)

/-- What a call returns to its caller. -/
inductive Output
  | none
  | word (value : UInt32)
  | text (bytes : List UInt8)
  deriving DecidableEq

/-- Run one call. -/
def exec (bs : ι → Buffer) : Op ι → Exec (Output × (ι → Buffer))
  | .append i data => do
      let b ← (bs i).append data.bytes data.size
      return (.none, Function.update bs i b)
  | .writeUInt32 i hn => do
      let b ← (bs i).writeUInt32 hn
      return (.none, Function.update bs i b)
  | .peekUInt32 i => do
      let value ← (bs i).peekUInt32
      return (.word value, bs)
  | .readUInt32 i => do
      let (value, b) ← (bs i).readUInt32
      return (.word value, Function.update bs i b)
  | .retrieve i len => do
      let b ← (bs i).retrieve len
      return (.none, Function.update bs i b)
  | .retrieveAsString i len => do
      let (bytes, b) ← (bs i).retrieveAsString len
      return (.text bytes, Function.update bs i b)
  | .retrieveUInt32 i => do
      let b ← (bs i).retrieveUInt32
      return (.none, Function.update bs i b)
  | .retrieveAll i => .ok (.none, Function.update bs i (bs i).retrieveAll)
  | .swap i j =>
      .ok (.none, Function.update (Function.update bs i ((bs i).swap (bs j)).1) j
        ((bs i).swap (bs j)).2)

namespace Op

/-- The call asks for at most `readableBytes()`. -/
def Legal (bs : ι → Buffer) : Op ι → Prop
  | .peekUInt32 i | .readUInt32 i | .retrieveUInt32 i => 4 ≤ (bs i).readableBytes
  | .retrieve i len | .retrieveAsString i len => len ≤ (bs i).readableBytes
  | .append _ _ | .writeUInt32 _ _ | .retrieveAll _ | .swap _ _ => True

/-- The call appends along the path of `makeSpace` that moves data to the front. -/
def MovesData (bs : ι → Buffer) : Op ι → Prop
  | .append i data => (bs i).MovesData data.size
  | .writeUInt32 i _ => (bs i).MovesData 4
  | .peekUInt32 _ | .readUInt32 _ | .retrieve _ _ | .retrieveAsString _ _
  | .retrieveUInt32 _ | .retrieveAll _ | .swap _ _ => False

/-- The call appends more than a vector can hold. -/
def Outgrows (bs : ι → Buffer) : Op ι → Prop
  | .append i data => (bs i).Outgrows data.size
  | .writeUInt32 i _ => (bs i).Outgrows 4
  | .peekUInt32 _ | .readUInt32 _ | .retrieve _ _ | .retrieveAsString _ _
  | .retrieveUInt32 _ | .retrieveAll _ | .swap _ _ => False

instance decidableLegal (bs : ι → Buffer) : (op : Op ι) → Decidable (op.Legal bs)
  | .peekUInt32 i | .readUInt32 i | .retrieveUInt32 i =>
      inferInstanceAs (Decidable (4 ≤ (bs i).readableBytes))
  | .retrieve i len | .retrieveAsString i len =>
      inferInstanceAs (Decidable (len ≤ (bs i).readableBytes))
  | .append _ _ | .writeUInt32 _ _ | .retrieveAll _ | .swap _ _ =>
      inferInstanceAs (Decidable True)

instance decidableMovesData (bs : ι → Buffer) : (op : Op ι) → Decidable (op.MovesData bs)
  | .append i data => inferInstanceAs (Decidable ((bs i).MovesData data.size))
  | .writeUInt32 i _ => inferInstanceAs (Decidable ((bs i).MovesData 4))
  | .peekUInt32 _ | .readUInt32 _ | .retrieve _ _ | .retrieveAsString _ _
  | .retrieveUInt32 _ | .retrieveAll _ | .swap _ _ => inferInstanceAs (Decidable False)

end Op

/-! ## The queue -/

/-- The operations on byte strings: what a call returns, and the strings after it. -/
def Fifo.apply (qs : ι → List UInt8) : Op ι → Output × (ι → List UInt8)
  | .append i data => (.none, Function.update qs i (qs i ++ data.bytes))
  | .writeUInt32 i hn => (.none, Function.update qs i (qs i ++ uint32Bytes hn))
  | .peekUInt32 i => (.word (ntohl ((qs i).take 4)), qs)
  | .readUInt32 i =>
      (.word (ntohl ((qs i).take 4)), Function.update qs i ((qs i).drop 4))
  | .retrieve i len => (.none, Function.update qs i ((qs i).drop len.toNat))
  | .retrieveAsString i len =>
      (.text ((qs i).take len.toNat), Function.update qs i ((qs i).drop len.toNat))
  | .retrieveUInt32 i => (.none, Function.update qs i ((qs i).drop 4))
  | .retrieveAll i => (.none, Function.update qs i [])
  | .swap i j => (.none, Function.update (Function.update qs i (qs j)) j (qs i))

/-- `readUInt32` returns the number whose four bytes `writeUInt32` put where the head
of the queue now is. -/
theorem Fifo.apply_readUInt32 {qs : ι → List UInt8} {i : ι} {hn : UInt32}
    {rest : List UInt8} (h : qs i = uint32Bytes hn ++ rest) :
    Fifo.apply qs (.readUInt32 i) = (.word hn, Function.update qs i rest) := by
  have htake : (qs i).take 4 = uint32Bytes hn := by
    rw [h, ← length_uint32Bytes hn, List.take_left]
  have hdrop : (qs i).drop 4 = rest := by
    rw [h, ← length_uint32Bytes hn, List.drop_left]
  rw [Fifo.apply, htake, hdrop, ntohl_uint32Bytes]

/-! ## One operation -/

theorem holds_update {bs : ι → Buffer} {qs : ι → List UInt8} {i : ι}
    {b : Buffer} {q : List UInt8} (hall : ∀ k, (bs k).Holds (qs k)) (h : b.Holds q) (k : ι) :
    (Function.update bs i b k).Holds (Function.update qs i q k) := by
  by_cases hk : k = i
  · subst hk
    simpa using h
  · simpa [Function.update_of_ne hk] using hall k

/-- An append of all bytes of an object to one of the buffers. -/
theorem append_update_cases {bs : ι → Buffer} {qs : ι → List UInt8} {i : ι}
    {data : List UInt8} {len : UInt64} (hall : ∀ k, (bs k).Holds (qs k))
    (hlen : len.toNat = data.length) (hmax : len.toNat ≤ ptrdiffMax) :
    let call : Exec (Output × (ι → Buffer)) :=
      (bs i).append data len >>= fun b => .ok (.none, Function.update bs i b)
    ((bs i).MovesData len ∧ call = .error (.assertion .makeSpace)) ∨
    (¬(bs i).MovesData len ∧ (bs i).Outgrows len ∧ call = .error .lengthError) ∨
    (¬(bs i).MovesData len ∧ ∃ bs', call = .ok (.none, bs') ∧
      ∀ k, (bs' k).Holds (Function.update qs i (qs i ++ data) k)) := by
  rcases (hall i).append_cases hlen.le hmax with
    ⟨hmove, h⟩ | ⟨hgrow, h⟩ | ⟨hmove, -, b, h, hb, -⟩
  · exact Or.inl ⟨hmove, by rw [h]; rfl⟩
  · exact Or.inr (Or.inl ⟨hgrow.not_movesData, hgrow, by rw [h]; rfl⟩)
  · rw [hlen, List.take_length] at hb
    exact Or.inr (Or.inr ⟨hmove, _, by rw [h]; rfl, holds_update hall hb⟩)

/-- **One operation on buffers that hold byte strings.**  An append along the moving
path fails the `assert` of `makeSpace`, an append beyond `max_size()` throws, and
every other operation returns what the queue returns and leaves what the queue
leaves. -/
theorem exec_cases {bs : ι → Buffer} {qs : ι → List UInt8} {op : Op ι}
    (hall : ∀ k, (bs k).Holds (qs k)) (hlegal : op.Legal bs) :
    (op.MovesData bs ∧ exec bs op = .error (.assertion .makeSpace)) ∨
    (¬op.MovesData bs ∧ op.Outgrows bs ∧ exec bs op = .error .lengthError) ∨
    (¬op.MovesData bs ∧ ∃ bs', exec bs op = .ok ((Fifo.apply qs op).1, bs') ∧
      ∀ k, (bs' k).Holds ((Fifo.apply qs op).2 k)) := by
  cases op with
  | append i data =>
      exact append_update_cases hall data.toNat_size
        (data.toNat_size ▸ data.length_le)
  | writeUInt32 i hn =>
      have hlen : (4 : UInt64).toNat = (uint32Bytes hn).length := (length_uint32Bytes hn).symm
      exact append_update_cases hall hlen (by decide)
  | peekUInt32 i =>
      have hlen : 4 ≤ (qs i).length := (hall i).toNat_le_length hlegal
      refine Or.inr (Or.inr ⟨id, bs, ?_, hall⟩)
      rw [exec, (hall i).peekUInt32 hlen]
      rfl
  | readUInt32 i =>
      have hlen : 4 ≤ (qs i).length := (hall i).toNat_le_length hlegal
      obtain ⟨b, hb, hholds⟩ := (hall i).readUInt32 hlen
      refine Or.inr (Or.inr ⟨id, _, ?_, holds_update hall hholds⟩)
      rw [exec, hb]
      rfl
  | retrieve i len =>
      obtain ⟨b, hb, hholds⟩ := (hall i).retrieve ((hall i).toNat_le_length hlegal)
      refine Or.inr (Or.inr ⟨id, _, ?_, holds_update hall hholds⟩)
      rw [exec, hb]
      rfl
  | retrieveAsString i len =>
      obtain ⟨b, hb, hholds⟩ := (hall i).retrieveAsString ((hall i).toNat_le_length hlegal)
      refine Or.inr (Or.inr ⟨id, _, ?_, holds_update hall hholds⟩)
      rw [exec, hb]
      rfl
  | retrieveUInt32 i =>
      have hlen : 4 ≤ (qs i).length := (hall i).toNat_le_length hlegal
      obtain ⟨b, hb, hholds⟩ := (hall i).retrieveUInt32 hlen
      refine Or.inr (Or.inr ⟨id, _, ?_, holds_update hall hholds⟩)
      rw [exec, hb]
      rfl
  | retrieveAll i =>
      exact Or.inr (Or.inr ⟨id, _, rfl, holds_update hall (holds_retrieveAll (bs i))⟩)
  | swap i j =>
      exact Or.inr (Or.inr ⟨id, _, rfl, holds_update (holds_update hall (hall j)) (hall i)⟩)

/-! ## Runs -/

/-- Every call of the run asks for at most `readableBytes()`. -/
def LegalRun (bs : ι → Buffer) : List (Op ι) → Prop
  | [] => True
  | op :: ops =>
      op.Legal bs ∧
        match exec bs op with
        | .ok (_, bs') => LegalRun bs' ops
        | .error _ => True

instance decidableLegalRun : (bs : ι → Buffer) → (ops : List (Op ι)) →
    Decidable (LegalRun bs ops)
  | _, [] => isTrue trivial
  | bs, op :: ops =>
      match h : exec bs op with
      | .ok (_, bs') =>
          have := decidableLegalRun bs' ops
          decidable_of_iff (op.Legal bs ∧ LegalRun bs' ops) (by simp [LegalRun, h])
      | .error _ => decidable_of_iff (op.Legal bs) (by simp [LegalRun, h])

/-- No append of the run takes the path that moves data to the front. -/
def NeverMoves (bs : ι → Buffer) : List (Op ι) → Prop
  | [] => True
  | op :: ops =>
      ¬op.MovesData bs ∧
        match exec bs op with
        | .ok (_, bs') => NeverMoves bs' ops
        | .error _ => True

instance decidableNeverMoves : (bs : ι → Buffer) → (ops : List (Op ι)) →
    Decidable (NeverMoves bs ops)
  | _, [] => isTrue trivial
  | bs, op :: ops =>
      match h : exec bs op with
      | .ok (_, bs') =>
          have := decidableNeverMoves bs' ops
          decidable_of_iff (¬op.MovesData bs ∧ NeverMoves bs' ops) (by simp [NeverMoves, h])
      | .error _ => decidable_of_iff (¬op.MovesData bs) (by simp [NeverMoves, h])

/-- **A run that refines the queue.**  In every state of it each buffer is well formed
and holds the byte string `qs` of the queue; a call that returns gives what the queue
gives; and the only way not to return is that the vector throws because it cannot be
that long. -/
def RefinesFifo (bs : ι → Buffer) (qs : ι → List UInt8) : List (Op ι) → Prop
  | [] => ∀ k, (bs k).Holds (qs k)
  | op :: ops =>
      (∀ k, (bs k).Holds (qs k)) ∧
        match exec bs op with
        | .ok (out, bs') =>
            out = (Fifo.apply qs op).1 ∧ RefinesFifo bs' (Fifo.apply qs op).2 ops
        | .error abort => op.Outgrows bs ∧ abort = .lengthError

/-- From buffers that hold byte strings, a legal run refines the queue exactly when it
never takes the moving path. -/
theorem refinesFifo_iff_of_holds {bs : ι → Buffer} {qs : ι → List UInt8} {ops : List (Op ι)}
    (hall : ∀ k, (bs k).Holds (qs k)) (hlegal : LegalRun bs ops) :
    RefinesFifo bs qs ops ↔ NeverMoves bs ops := by
  induction ops generalizing bs qs with
  | nil => exact ⟨fun _ => trivial, fun _ => hall⟩
  | cons op ops ih =>
      obtain ⟨hop, hrest⟩ := hlegal
      rcases exec_cases hall hop with ⟨hmove, h⟩ | ⟨hmove, hgrow, h⟩ | ⟨hmove, bs', h, hall'⟩
      · simp [RefinesFifo, NeverMoves, h, hmove]
      · simp [RefinesFifo, NeverMoves, h, hmove, hgrow, hall]
      · rw [h] at hrest
        simp only [RefinesFifo, NeverMoves, h, hmove, hall, implies_true, true_and,
          not_false_eq_true]
        exact ih hall' hrest

/-- Buffers as they are constructed, with an initial size each. -/
def fresh (ns : ι → UInt64) (hns : ∀ i, (ns i).toNat ≤ ptrdiffMax) (i : ι) : Buffer :=
  new (ns i) (hns i)

omit [DecidableEq ι] in
theorem holds_fresh (ns : ι → UInt64) (hns : ∀ i, (ns i).toNat ≤ ptrdiffMax) (i : ι) :
    (fresh ns hns i).Holds [] := holds_new (ns i) (hns i)

/-- **`Buffer` is a FIFO byte queue exactly as long as it does not move data.**  For
all initial sizes and every sequence of calls that ask for at most what is readable,
the run refines the queue if and only if no append finds too little room behind the
writer index and enough on both sides together.  A `readUInt32` of the queue returns
the number whose bytes `writeUInt32` appended. -/
theorem refinesFifo_fresh_iff (ns : ι → UInt64) (hns : ∀ i, (ns i).toNat ≤ ptrdiffMax)
    (ops : List (Op ι)) (hlegal : LegalRun (fresh ns hns) ops) :
    (RefinesFifo (fresh ns hns) (fun _ => []) ops ↔ NeverMoves (fresh ns hns) ops) ∧
      ∀ (qs : ι → List UInt8) (i : ι) (hn : UInt32) (rest : List UInt8),
        qs i = uint32Bytes hn ++ rest →
          Fifo.apply qs (.readUInt32 i) = (.word hn, Function.update qs i rest) :=
  ⟨refinesFifo_iff_of_holds (holds_fresh ns hns) hlegal,
    fun _ _ _ _ h => Fifo.apply_readUInt32 h⟩

/-- Two buffers of 8 bytes: a write, a swap, a partial read, and an append that makes
the vector grow. -/
def growingRun : List (Op Bool) :=
  [.writeUInt32 false 7, .append false ⟨[1, 2], by decide⟩, .swap false true,
    .readUInt32 true, .append true ⟨List.replicate 9 3, by decide⟩,
    .retrieveAsString true 11]

theorem refinesFifo_fresh_growingRun :
    LegalRun (fresh (fun _ : Bool => 8) (fun _ => by decide)) growingRun ∧
      (RefinesFifo (fresh (fun _ : Bool => 8) (fun _ => by decide)) (fun _ => []) growingRun ↔
        NeverMoves (fresh (fun _ : Bool => 8) (fun _ => by decide)) growingRun) := by
  have hlegal : LegalRun (fresh (fun _ : Bool => 8) (fun _ => by decide)) growingRun := by
    decide +kernel
  exact ⟨hlegal, (refinesFifo_fresh_iff _ _ growingRun hlegal).1⟩

/-- Six bytes in a buffer of eight, four of them read, and five more to append. -/
def movingRun : List (Op Unit) :=
  [.append () ⟨[1, 2, 3, 4, 5, 6], by decide⟩, .retrieve () 4,
    .append () ⟨[7, 8, 9, 10, 11], by decide⟩]

/-- The run asks only for what is readable, and fails the `assert` of `makeSpace`. -/
theorem not_refinesFifo_movingRun :
    LegalRun (fresh (fun _ : Unit => 8) (fun _ => by decide)) movingRun ∧
      ¬RefinesFifo (fresh (fun _ : Unit => 8) (fun _ => by decide)) (fun _ => []) movingRun := by
  have hlegal : LegalRun (fresh (fun _ : Unit => 8) (fun _ => by decide)) movingRun := by
    decide +kernel
  refine ⟨hlegal, ?_⟩
  rw [refinesFifo_iff_of_holds (holds_fresh _ _) hlegal]
  decide +kernel

end Buffer

end LearnUv
