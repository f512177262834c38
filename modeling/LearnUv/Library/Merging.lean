import Mathlib.Algebra.BigOperators.Group.List.Basic
import Mathlib.Algebra.FreeMonoid.Basic
import Mathlib.Algebra.Group.Prod

/-!
# Merging

Values that are merged form a monoid: of two values that may be missing the second one
counts, and lists are put one behind the other.  What consists of several such parts is
merged part by part.

Where each record of a stream changes one part only, records that belong to different parts
can be exchanged.  So the result depends only on the order in which the records of each part
come.

To say that the result depends only on these, records are filtered by the part they belong
to.  The first record of one stream is the first of its part in the other one, too, and can be
moved to the front there over records of other parts; the induction goes on with the rest.

## Main Definitions

* `Last` — a value that may be missing

## Main Results

* `foldl_eq_of_filter_eq` — the order of records that commute does not matter
-/

namespace Merging

universe u v w

/-- A value that may be missing. -/
@[ext] structure Last (α : Type u) where
  value : Option α
  deriving DecidableEq

namespace Last

variable {α : Type u}

/-- A value that is there. -/
def of (a : α) : Last α := ⟨some a⟩

/-- Of two values the second one counts. -/
instance : Monoid (Last α) where
  mul a b := ⟨b.value.or a.value⟩
  one := ⟨none⟩
  mul_assoc a b c := Last.ext Option.or_assoc.symm
  one_mul a := Last.ext Option.or_none
  mul_one a := Last.ext Option.none_or

@[simp] theorem value_one : (1 : Last α).value = none := rfl

@[simp] theorem value_mul (a b : Last α) : (a * b).value = b.value.or a.value := rfl

@[simp] theorem value_of (a : α) : (of a).value = some a := rfl

@[simp] theorem mul_of (a : Last α) (b : α) : a * of b = of b := rfl

/-- A value that is there is not a missing one. -/
theorem of_ne_one (a : α) : of a ≠ 1 := fun h => Option.some_ne_none a (congrArg value h)

/-- A product is missing only if both factors are. -/
theorem mul_eq_one_iff {a b : Last α} : a * b = 1 ↔ a = 1 ∧ b = 1 := by
  simp only [Last.ext_iff, value_mul, value_one, Option.or_eq_none_iff]
  exact and_comm

end Last

/-- Factors of which one is missing can change places. -/
theorem mul_comm_of_eq_one {μ : Type u} [Monoid μ] {a b : μ} (h : a = 1 ∨ b = 1) :
    a * b = b * a := by
  rcases h with rfl | rfl
  · rw [one_mul, mul_one]
  · rw [one_mul, mul_one]

/-! ## Records that commute -/

section Commuting

variable {σ : Type u} {ρ : Type v} {ι : Type w} {act : σ → ρ → σ} {slot : ρ → ι}

/-- A record can be moved to the front over records of other slots. -/
theorem foldl_append_cons (hcomm : ∀ s a b, slot a ≠ slot b → act (act s a) b = act (act s b) a)
    {first : List ρ} {a : ρ} (hslot : ∀ b ∈ first, slot b ≠ slot a) (second : List ρ) (s : σ) :
    (first ++ a :: second).foldl act s = (a :: (first ++ second)).foldl act s := by
  induction first generalizing s with
  | nil => rfl
  | cons b first ih =>
      have hne := hslot b List.mem_cons_self
      rw [List.cons_append, List.foldl_cons, ih fun c hc => hslot c (List.mem_cons_of_mem _ hc),
        List.foldl_cons, hcomm s b a hne]
      rfl

variable [DecidableEq ι]

/-- **The order of records that commute does not matter**: the result depends only on the
records of each slot, in their order. -/
theorem foldl_eq_of_filter_eq
    (hcomm : ∀ s a b, slot a ≠ slot b → act (act s a) b = act (act s b) a)
    {records records' : List ρ}
    (h : ∀ i, (records.filter fun r => slot r = i) = records'.filter fun r => slot r = i)
    (s : σ) : records.foldl act s = records'.foldl act s := by
  induction records generalizing records' s with
  | nil =>
      have hnil : records' = [] := by
        refine List.eq_nil_iff_forall_not_mem.mpr fun a ha => ?_
        have hmem : a ∈ records'.filter fun r => slot r = slot a :=
          List.mem_filter.mpr ⟨ha, decide_eq_true rfl⟩
        rw [← h (slot a)] at hmem
        cases hmem
      rw [hnil]
  | cons a records ih =>
      have hself : decide (slot a = slot a) = true := decide_eq_true rfl
      have hhead := (h (slot a)).symm
      rw [@List.filter_cons_of_pos _ (fun r => decide (slot r = slot a)) _ _ hself] at hhead
      -- the first record of that slot on the other side is the same
      obtain ⟨first, second, rfl, hfirst, -, hsecond⟩ := List.filter_eq_cons_iff.mp hhead
      have hslot : ∀ b ∈ first, slot b ≠ slot a := fun b hb heq => hfirst b hb (decide_eq_true heq)
      rw [foldl_append_cons hcomm hslot, List.foldl_cons, List.foldl_cons]
      refine ih ?_ _
      intro i
      rw [List.filter_append]
      rcases eq_or_ne i (slot a) with rfl | hne
      · have hnone : (first.filter fun r => slot r = slot a) = [] :=
          List.filter_eq_nil_iff.mpr hfirst
        rw [hnone, hsecond, List.nil_append]
      · have hskip : ¬decide (slot a = i) = true := fun heq => hne (of_decide_eq_true heq).symm
        have hi := h i
        rwa [@List.filter_cons_of_neg _ (fun r => decide (slot r = i)) _ _ hskip,
          List.filter_append,
          @List.filter_cons_of_neg _ (fun r => decide (slot r = i)) _ _ hskip] at hi

end Commuting

end Merging
