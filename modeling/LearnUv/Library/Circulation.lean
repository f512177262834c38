import Mathlib.Data.List.Rotate

/-!
# Circulating words

A word that is sent round a ring: what comes back is sent again.  If `p` has been sent
again and `c` is under way, then what was sent, `b` and then `p`, is what has come back,
`p`, and then what is under way.  So `c` is always a rotation of `b`, and everything that is
sent repeats `b`.

Both results follow from that one equation between words.  It is solved by induction on the
length of what was sent again: while this is shorter than the block it is a prefix of it, and
as soon as it is as long, a whole block can be taken off the front of both sides.

## Main Definitions

* `repeated` — a word a number of times

## Main Results

* `isRotated_of_append_eq` — what is under way is a rotation of the word
* `prefix_repeated_of_append_eq` — what was sent again repeats the word
-/

universe u

namespace Circulation

variable {α : Type u}

/-- The word `b`, `n` times. -/
def repeated (b : List α) (n : ℕ) : List α := (List.replicate n b).flatten

theorem repeated_succ (b : List α) (n : ℕ) : repeated b (n + 1) = b ++ repeated b n := by
  rw [repeated, List.replicate_succ, List.flatten_cons]
  rfl

theorem append_prefix_repeated {b p : List α} {n : ℕ} (h : p <+: repeated b n) :
    b ++ p <+: repeated b (n + 1) := by
  rw [repeated_succ]
  exact (List.prefix_append_right_inj b).mpr h

/-- Either the word `b` is longer than what was sent again, or that begins with it. -/
theorem cases_of_append_eq {b p c : List α} (h : p ++ c = b ++ p) :
    (∃ t, b = p ++ t ∧ c = t ++ p) ∨ ∃ q, p = b ++ q ∧ q ++ c = b ++ q := by
  rcases List.append_eq_append_iff.mp h with ⟨t, hb, hc⟩ | ⟨q, hp, hq⟩
  · exact Or.inl ⟨t, hb, hc⟩
  · refine Or.inr ⟨q, hp, ?_⟩
    rw [hp, List.append_assoc, List.append_cancel_left_eq] at h
    exact h

/-- **What is under way is a rotation of the word.** -/
theorem isRotated_of_append_eq {b p c : List α} (h : p ++ c = b ++ p) : c ~r b := by
  induction hlen : p.length using Nat.strong_induction_on generalizing p with
  | _ n ih =>
      rcases cases_of_append_eq h with ⟨t, rfl, rfl⟩ | ⟨q, rfl, hq⟩
      · exact List.isRotated_append
      · by_cases hb : b = []
        · subst hb
          rw [List.append_right_eq_self.mp hq]
        · have hpos := List.length_pos_of_ne_nil hb
          rw [List.length_append] at hlen
          exact ih q.length (by omega) hq rfl

/-- **What was sent again repeats the word.** -/
theorem prefix_repeated_of_append_eq {b p c : List α} (hb : b ≠ []) (h : p ++ c = b ++ p) :
    ∃ n, p <+: repeated b n := by
  induction hlen : p.length using Nat.strong_induction_on generalizing p with
  | _ n ih =>
      rcases cases_of_append_eq h with ⟨t, rfl, rfl⟩ | ⟨q, rfl, hq⟩
      · refine ⟨1, ?_⟩
        rw [repeated_succ]
        exact (List.prefix_append p t).trans (List.prefix_append _ _)
      · have hpos := List.length_pos_of_ne_nil hb
        rw [List.length_append] at hlen
        obtain ⟨m, hm⟩ := ih q.length (by omega) hq rfl
        exact ⟨m + 1, append_prefix_repeated hm⟩

end Circulation
