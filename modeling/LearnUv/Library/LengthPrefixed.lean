import LearnUv.Library.BigEndian
import Mathlib.InformationTheory.Coding.UniquelyDecodable
import Mathlib.Data.List.Infix

/-!
# Length-prefixed byte strings

A byte string preceded by its length as a fixed-width numeral can be split off the
front of any longer byte string.  So no such code word is a proper prefix of another
one, and a concatenation of code words can be cut into them in one way only.

The numeral has a fixed width, so of two byte strings with equal beginnings the lengths are
equal, and then the bodies are.  That a prefix-free code is uniquely decodable is an induction
on one of the two lists of words, which takes the words off the front one by one.

## Main Definitions

* `prefixed` — a byte string with its length in front

## Main Results

* `prefixed_append_inj` — the code word at the front determines its body
* `uniquelyDecodable_of_prefixFree` — prefix-free codes are uniquely decodable
* `uniquelyDecodable_prefixed` — length-prefixed byte strings are
-/

universe u

namespace LengthPrefixed

open InformationTheory

/-- `body` preceded by its length in `width` bytes. -/
def prefixed (width : ℕ) (body : List UInt8) : List UInt8 :=
  BigEndian.digits width body.length ++ body

@[simp] theorem length_prefixed (width : ℕ) (body : List UInt8) :
    (prefixed width body).length = width + body.length := by
  simp [prefixed]

/-- The code word at the front of a byte string determines its body and what comes
after it. -/
theorem prefixed_append_inj {width : ℕ} {a b s t : List UInt8} (ha : a.length < 256 ^ width)
    (hb : b.length < 256 ^ width) (h : prefixed width a ++ s = prefixed width b ++ t) :
    a = b ∧ s = t := by
  unfold prefixed at h
  rw [List.append_assoc, List.append_assoc] at h
  obtain ⟨hdigits, hrest⟩ := List.append_inj h (by simp)
  have hlength : a.length = b.length := by
    rw [← BigEndian.value_digits width a.length ha, hdigits,
      BigEndian.value_digits width b.length hb]
  exact List.append_inj hrest hlength

/-- A code without the empty word, no word of which is a proper prefix of another, is
uniquely decodable. -/
theorem uniquelyDecodable_of_prefixFree {α : Type u} {S : Set (List α)} (hnil : [] ∉ S)
    (hpre : ∀ v ∈ S, ∀ w ∈ S, v <+: w → v = w) : UniquelyDecodable S := by
  intro L₁
  induction L₁ with
  | nil =>
      intro L₂ _ h₂ h
      cases L₂ with
      | nil => rfl
      | cons w L₂ =>
          obtain ⟨hw, -⟩ := List.append_eq_nil_iff.mp h.symm
          exact absurd (hw ▸ h₂ w (by simp)) hnil
  | cons v L₁ ih =>
      intro L₂ h₁ h₂ h
      cases L₂ with
      | nil =>
          obtain ⟨hv, -⟩ := List.append_eq_nil_iff.mp h
          exact absurd (hv ▸ h₁ v (by simp)) hnil
      | cons w L₂ =>
          have hv := h₁ v (by simp)
          have hw := h₂ w (by simp)
          rw [List.flatten_cons, List.flatten_cons] at h
          have hvw : v = w := by
            -- of two prefixes of one string, one is a prefix of the other
            rcases List.prefix_or_prefix_of_prefix (List.prefix_append v _)
              (h ▸ List.prefix_append w _) with hle | hle
            · exact hpre v hv w hw hle
            · exact (hpre w hw v hv hle).symm
          subst hvw
          have hrest : L₁ = L₂ := ih L₂ (fun x hx => h₁ x (List.mem_cons_of_mem _ hx))
            (fun x hx => h₂ x (List.mem_cons_of_mem _ hx)) (List.append_cancel_left h)
          rw [hrest]

/-- The byte strings whose length fits into `width` bytes, with that length in front. -/
def codeWords (width : ℕ) : Set (List UInt8) :=
  {w | ∃ body : List UInt8, body.length < 256 ^ width ∧ prefixed width body = w}

theorem uniquelyDecodable_prefixed {width : ℕ} (hwidth : 0 < width) :
    UniquelyDecodable (codeWords width) := by
  apply uniquelyDecodable_of_prefixFree
  · rintro ⟨body, -, hnil⟩
    have hlength := congrArg List.length hnil
    rw [length_prefixed, List.length_nil] at hlength
    omega
  · rintro v ⟨a, ha, rfl⟩ w ⟨b, hb, rfl⟩ ⟨t, ht⟩
    have hab := (prefixed_append_inj (s := t) (t := []) ha hb (by simpa using ht)).1
    rw [hab]

end LengthPrefixed
