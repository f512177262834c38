import LearnUv.Library.Merging

/-!
# `_has_bits_`

A field that may be absent has a bit in the word `_has_bits_`, and the generated code tests,
sets, clears and merges these bits.  It does so with masks: it tests one bit before it reads
a field, the two or three bits of all required fields to see whether a message is
initialized, and all bits at once before it merges a message field by field.

Seen through its bit, a field is a value that may be missing (`presence`), and the values
that may be missing form a monoid in which the later value wins.  Merging two words of bits
by `|=`, and the fields whose bit is set in the second word, is the product of that monoid.
That is all the specifications of the three messages need to know of the bits, so this is
the only module that reasons about `UInt32`: a generated class has at most three fields with
bits, and what is said of the three lowest bits is tried out on the eight words there are.

## Main Definitions

* `presence` — a field that may be absent, given by the bits and its value

## Main Results

* `presence_merge` — merging a field by its bits is merging values that may be missing
* `presence_inj` — with defaults, a field is determined by its presence
-/

namespace LearnUv

namespace Protobuf

open Merging (Last)

variable {α : Type} {b c mask other : UInt32} {v w : α}

/-- Testing bits of two merged words is testing them in each. -/
theorem or_and (b c mask : UInt32) : (b ||| c) &&& mask = b &&& mask ||| c &&& mask := by
  rw [← UInt32.toBitVec_inj]
  exact BitVec.and_or_distrib_right

/-- A fact about the three lowest bits can be tried out. -/
theorem and_seven_induction {P : UInt32 → Prop} (h : ∀ i : Fin 8, P (UInt32.ofNat i))
    (b : UInt32) : P (b &&& 7) := by
  have hle : (b &&& 7).toNat ≤ 7 := UInt32.le_iff_toNat_le.mp UInt32.and_le_right
  have hself : UInt32.ofNat (b &&& 7).toNat = b &&& 7 := UInt32.ofNat_toNat
  rw [← hself]
  exact h ⟨(b &&& 7).toNat, by omega⟩

/-- Two bits that are tested at once: both fields are there. -/
theorem and_three_eq_iff (b : UInt32) : b &&& 3 = 3 ↔ b &&& 1 ≠ 0 ∧ b &&& 2 ≠ 0 := by
  have h := and_seven_induction
    (P := fun b => (b &&& 3 = 3 ↔ b &&& 1 ≠ 0 ∧ b &&& 2 ≠ 0)) (by decide) b
  simp only [UInt32.and_assoc] at h
  exact h

/-- Likewise for three bits. -/
theorem and_seven_eq_iff (b : UInt32) :
    b &&& 7 = 7 ↔ b &&& 1 ≠ 0 ∧ b &&& 2 ≠ 0 ∧ b &&& 4 ≠ 0 := by
  have h := and_seven_induction
    (P := fun b => (b &&& 7 = 7 ↔ b &&& 1 ≠ 0 ∧ b &&& 2 ≠ 0 ∧ b &&& 4 ≠ 0)) (by decide) b
  simp only [UInt32.and_assoc] at h
  exact h

/-- Two bits that are tested at once: neither field is there. -/
theorem and_three_eq_zero_iff (b : UInt32) : b &&& 3 = 0 ↔ b &&& 1 = 0 ∧ b &&& 2 = 0 := by
  have h := and_seven_induction
    (P := fun b => (b &&& 3 = 0 ↔ b &&& 1 = 0 ∧ b &&& 2 = 0)) (by decide) b
  simp only [UInt32.and_assoc] at h
  exact h

/-- Words that agree on whether each of two fields is there agree on both bits. -/
theorem and_three_congr (h1 : b &&& 1 = 0 ↔ c &&& 1 = 0) (h2 : b &&& 2 = 0 ↔ c &&& 2 = 0) :
    b &&& 3 = c &&& 3 := by
  have hcases := and_seven_induction (P := fun b => ∀ i : Fin 8,
    (b &&& 1 = 0 ↔ UInt32.ofNat i &&& 1 = 0) → (b &&& 2 = 0 ↔ UInt32.ofNat i &&& 2 = 0) →
      b &&& 3 = UInt32.ofNat i &&& 3) (by decide) b
  have hboth := and_seven_induction (P := fun c => (b &&& 7 &&& 1 = 0 ↔ c &&& 1 = 0) →
    (b &&& 7 &&& 2 = 0 ↔ c &&& 2 = 0) → b &&& 7 &&& 3 = c &&& 3) hcases c
  simp only [UInt32.and_assoc] at hboth
  exact hboth h1 h2

/-- Likewise for three fields. -/
theorem and_seven_congr (h1 : b &&& 1 = 0 ↔ c &&& 1 = 0) (h2 : b &&& 2 = 0 ↔ c &&& 2 = 0)
    (h4 : b &&& 4 = 0 ↔ c &&& 4 = 0) : b &&& 7 = c &&& 7 := by
  have hcases := and_seven_induction (P := fun b => ∀ i : Fin 8,
    (b &&& 1 = 0 ↔ UInt32.ofNat i &&& 1 = 0) → (b &&& 2 = 0 ↔ UInt32.ofNat i &&& 2 = 0) →
      (b &&& 4 = 0 ↔ UInt32.ofNat i &&& 4 = 0) → b &&& 7 = UInt32.ofNat i &&& 7) (by decide) b
  have hboth := and_seven_induction (P := fun c => (b &&& 7 &&& 1 = 0 ↔ c &&& 1 = 0) →
    (b &&& 7 &&& 2 = 0 ↔ c &&& 2 = 0) → (b &&& 7 &&& 4 = 0 ↔ c &&& 4 = 0) →
      b &&& 7 &&& 7 = c &&& 7) hcases c
  simp only [UInt32.and_assoc] at hboth
  exact hboth h1 h2 h4

/-- A bit that is not clear is set: the lowest one. -/
theorem and_one_eq (h : b &&& 1 ≠ 0) : b &&& 1 = 1 := by
  have hcases := and_seven_induction (P := fun b => b &&& 1 ≠ 0 → b &&& 1 = 1) (by decide) b
  simp only [UInt32.and_assoc] at hcases
  exact hcases h

/-- The one above it. -/
theorem and_two_eq (h : b &&& 2 ≠ 0) : b &&& 2 = 2 := by
  have hcases := and_seven_induction (P := fun b => b &&& 2 ≠ 0 → b &&& 2 = 2) (by decide) b
  simp only [UInt32.and_assoc] at hcases
  exact hcases h

/-- A word in which a bit is set is not zero, so the merge does not stop at once. -/
theorem ne_zero_of_and (h : b &&& mask ≠ 0) : b ≠ 0 := by
  rintro rfl
  exact h UInt32.zero_and

/-- Merging sets no bit that belongs to no field. -/
theorem or_and_eq_self (hb : b &&& mask = b) (hc : c &&& mask = c) :
    (b ||| c) &&& mask = b ||| c := by
  rw [or_and, hb, hc]

/-- Nor does clearing bits. -/
theorem and_and_eq_self (hb : b &&& mask = b) (c : UInt32) : (b &&& c) &&& mask = b &&& c := by
  rw [UInt32.and_assoc, UInt32.and_comm c, ← UInt32.and_assoc, hb]

/-- A field of the second word is there in the merged word. -/
theorem or_and_ne_zero (h : c &&& mask ≠ 0) : (b ||| c) &&& mask ≠ 0 := by
  rw [or_and]
  exact fun hzero => h (UInt32.or_eq_zero_iff.mp hzero).2

/-- A bit that is clear in the second word is what it was. -/
theorem or_and_of_disjoint (h : c &&& mask = 0) : (b ||| c) &&& mask = b &&& mask := by
  rw [or_and, h, UInt32.or_zero]

/-- Clearing bits outside of a mask does not change what the mask tests. -/
theorem and_and_of_subset (h : c &&& mask = mask) : b &&& c &&& mask = b &&& mask := by
  rw [UInt32.and_assoc, h]

/-- A bit that is set is set again without effect. -/
theorem or_or_of_and (h : c &&& mask = mask) : b ||| mask ||| c = b ||| c := by
  have habsorb : mask ||| c = c := by
    rw [← h, UInt32.or_comm, ← UInt32.toBitVec_inj]
    exact BitVec.eq_of_getElem_eq (by simpa using fun i _ hc _ => hc)
  rw [UInt32.or_assoc, habsorb]

/-- A field that may be absent: its value if its bit is set, and nothing otherwise. -/
def presence (hasBits mask : UInt32) (v : α) : Last α :=
  if hasBits &&& mask ≠ 0 then Last.of v else 1

/-- A field that is there. -/
theorem presence_of_ne (h : b &&& mask ≠ 0) : presence b mask v = Last.of v := if_pos h

/-- A field that is not. -/
theorem presence_of_eq (h : b &&& mask = 0) : presence b mask v = 1 := if_neg (not_not_intro h)

/-- Which of the two it is can be read off the presence, as `has_..()` reads it off the bit. -/
theorem presence_ne_one_iff : presence b mask v ≠ 1 ↔ b &&& mask ≠ 0 := by
  refine not_congr ⟨fun h => ?_, presence_of_eq⟩
  by_contra hne
  rw [presence_of_ne hne] at h
  exact Last.of_ne_one v h

/-- A setter makes its field present. -/
theorem presence_or_self (hmask : mask &&& mask ≠ 0) :
    presence (b ||| mask) mask v = Last.of v :=
  presence_of_ne (or_and_ne_zero hmask)

/-- The presence depends on the one bit. -/
theorem presence_congr (h : b &&& mask = c &&& mask) : presence b mask v = presence c mask v := by
  rw [presence, h, presence]

/-- A new object has no field. -/
@[simp] theorem presence_zero (mask : UInt32) (v : α) : presence 0 mask v = 1 :=
  presence_of_eq UInt32.zero_and

/-- **Merging a field by its bits**: the field of the second message, if it has one, and that
of the first otherwise. -/
theorem presence_merge :
    presence (b ||| c) mask (if c &&& mask ≠ 0 then w else v) =
      presence b mask v * presence c mask w := by
  by_cases hc : c &&& mask = 0
  · rw [if_neg (not_not_intro hc), presence_congr (or_and_of_disjoint hc), presence_of_eq hc,
      mul_one]
  · rw [if_pos hc, presence_of_ne (or_and_ne_zero hc), presence_of_ne hc, Last.mul_of]

/-- Where it is absent in both, the merged field still has its default. -/
theorem default_merge {default : α} (hv : b &&& mask = 0 → v = default) :
    (b ||| c) &&& mask = 0 → (if c &&& mask ≠ 0 then w else v) = default := by
  intro hzero
  rw [or_and] at hzero
  obtain ⟨hfst, hsnd⟩ := UInt32.or_eq_zero_iff.mp hzero
  rw [if_neg (not_not_intro hsnd), hv hfst]

/-- A value that is the default where it is absent is determined by its presence. -/
theorem presence_inj {default : α} (hv : b &&& mask = 0 → v = default)
    (hw : c &&& mask = 0 → w = default) (h : presence b mask v = presence c mask w) :
    (b &&& mask = 0 ↔ c &&& mask = 0) ∧ v = w := by
  by_cases hb : b &&& mask = 0
  · rw [presence_of_eq hb] at h
    by_cases hc : c &&& mask = 0
    · exact ⟨iff_of_true hb hc, (hv hb).trans (hw hc).symm⟩
    · rw [presence_of_ne hc] at h
      cases congrArg Last.value h
  · rw [presence_of_ne hb] at h
    by_cases hc : c &&& mask = 0
    · rw [presence_of_eq hc] at h
      cases congrArg Last.value h
    · rw [presence_of_ne hc] at h
      exact ⟨iff_of_false hb hc, Option.some.inj (congrArg Last.value h)⟩

end Protobuf

end LearnUv
