import LearnUv.Library.IncrementalDecoder
import Mathlib.Data.List.Induction

/-!
# A decoder shared by several sources

Several sources send streams to one receiver, chunk by chunk and in any order, and the
receiver feeds every chunk to the same incremental decoder.  What it decodes is what
one decoder for each source would decode, put in some order, as long as a source only
sends while nothing of any other source is left over.

The induction is on the history, a chunk at a time.  The invariant says of every source that,
where the decoders of all others have left nothing over, what the shared decoder has left over
is what the source's own has.  A chunk of an undisturbed source then meets in the shared
decoder what it would meet in its own.

## Main Definitions

* `Interleaves` — a list made of the elements of the sources' lists, each source's own
  elements in their order
* `sentBy`, `sent` — what one source sent, and what all of them sent, in a history
* `Undisturbed` — no chunk arrives while part of another source's message is left over

## Main Results

* `sharedDrain_interleaves` — undisturbed sources do not notice each other
-/

universe u v w

section Interleaves

variable {ι : Type u} [DecidableEq ι] {β : Type v}

/-- `out` consists of the elements of the lists, one list for each source, those of each
source in their order: the elements of `out` can be labelled with sources so that those
with the label `i` are the list of `i`. -/
def Interleaves (lists : ι → List β) (out : List β) : Prop :=
  ∃ labelled : List (ι × β), labelled.map Prod.snd = out ∧
    ∀ i, (labelled.filter fun p => p.1 = i).map Prod.snd = lists i

/-- Nothing was decoded of nothing. -/
theorem interleaves_nil : Interleaves (fun _ : ι => ([] : List β)) [] :=
  ⟨[], rfl, fun _ => rfl⟩

/-- Every element is an element of some source. -/
theorem Interleaves.exists_mem {lists : ι → List β} {out : List β}
    (h : Interleaves lists out) {b : β} (hb : b ∈ out) : ∃ i, b ∈ lists i := by
  obtain ⟨labelled, hout, hlists⟩ := h
  rw [← hout] at hb
  obtain ⟨p, hp, rfl⟩ := List.mem_map.mp hb
  refine ⟨p.1, ?_⟩
  rw [← hlists p.1]
  exact List.mem_map_of_mem (List.mem_filter.mpr ⟨hp, decide_eq_true rfl⟩)

/-- One source goes on. -/
theorem Interleaves.append {lists lists' : ι → List β} {out : List β}
    (h : Interleaves lists out) (i : ι) (more : List β) (hi : lists' i = lists i ++ more)
    (hother : ∀ j ≠ i, lists' j = lists j) : Interleaves lists' (out ++ more) := by
  obtain ⟨labelled, hout, hlists⟩ := h
  refine ⟨labelled ++ more.map fun b => (i, b), ?_, ?_⟩
  · rw [List.map_append, hout, List.map_map]
    show out ++ more.map id = out ++ more
    rw [List.map_id]
  · intro j
    rw [List.filter_append, List.map_append, hlists j]
    by_cases hji : j = i
    · subst hji
      have hall : (more.map fun b => (j, b)).filter (fun p => p.1 = j) =
          more.map fun b => (j, b) := by
        rw [List.filter_eq_self]
        intro p hp
        obtain ⟨b, -, rfl⟩ := List.mem_map.mp hp
        simp
      rw [hall, List.map_map, hi]
      show lists j ++ more.map id = lists j ++ more
      rw [List.map_id]
    · have hnone : (more.map fun b => (i, b)).filter (fun p => p.1 = j) = [] := by
        rw [List.filter_eq_nil_iff]
        intro p hp
        obtain ⟨b, -, rfl⟩ := List.mem_map.mp hp
        simpa using fun h => hji h.symm
      rw [hnone, List.map_nil, List.append_nil, hother j hji]

end Interleaves

namespace IncrementalDecoder

variable {ι : Type u} [DecidableEq ι] {α : Type v} {β : Type w}

/-! ## What the sources send -/

/-- What source `i` has sent. -/
def sentBy (i : ι) (history : List (ι × List α)) : List α :=
  ((history.filter fun p => p.1 = i).map Prod.snd).flatten

/-- What all sources have sent, in the order of arrival. -/
def sent (history : List (ι × List α)) : List α := (history.map Prod.snd).flatten

@[simp] theorem sentBy_nil (i : ι) : sentBy i ([] : List (ι × List α)) = [] := rfl

omit [DecidableEq ι] in
@[simp] theorem sent_nil : sent ([] : List (ι × List α)) = [] := rfl

omit [DecidableEq ι] in
/-- Another chunk comes behind what was sent. -/
theorem sent_concat (history : List (ι × List α)) (i : ι) (chunk : List α) :
    sent (history ++ [(i, chunk)]) = sent history ++ chunk := by
  simp [sent]

/-- It counts for the source that sent it, -/
theorem sentBy_concat_self (history : List (ι × List α)) (i : ι) (chunk : List α) :
    sentBy i (history ++ [(i, chunk)]) = sentBy i history ++ chunk := by
  simp [sentBy]

/-- and for no other. -/
theorem sentBy_concat_of_ne (history : List (ι × List α)) {i j : ι} (h : j ≠ i)
    (chunk : List α) : sentBy j (history ++ [(i, chunk)]) = sentBy j history := by
  have hne : i ≠ j := fun heq => h heq.symm
  simp [sentBy, hne]

/-! ## Sharing one decoder -/

variable (D : IncrementalDecoder α β)

/-- Whenever a chunk of source `i` arrives, nothing of any other source is left over. -/
def Undisturbed (history : List (ι × List α)) : Prop :=
  ∀ before i chunk, before ++ [(i, chunk)] <+: history →
    ∀ j ≠ i, (D.drain (sentBy j before)).2 = []

variable {D}

/-- The beginning of an undisturbed history is undisturbed. -/
theorem Undisturbed.of_prefix {first history : List (ι × List α)}
    (h : D.Undisturbed history) (hpre : first <+: history) : D.Undisturbed first := by
  intro before i chunk hbefore
  exact h before i chunk (hbefore.trans hpre)

/-- **Undisturbed sources do not notice each other.**  The shared decoder delivers the
messages of the sources, each source's in their order; and it holds what is left over
of the one source that has something left over. -/
theorem sharedDrain_interleaves {history : List (ι × List α)} (h : D.Undisturbed history) :
    Interleaves (fun i => (D.drain (sentBy i history)).1) (D.drain (sent history)).1 ∧
      ∀ i, (∀ j ≠ i, (D.drain (sentBy j history)).2 = []) →
        (D.drain (sent history)).2 = (D.drain (sentBy i history)).2 := by
  induction history using List.reverseRecOn with
  | nil =>
      simp only [sent_nil, sentBy_nil, drain_nil]
      exact ⟨interleaves_nil, fun _ _ => trivial⟩
  | append_singleton history event ih =>
      obtain ⟨i, chunk⟩ := event
      obtain ⟨hinter, hrest⟩ := ih (h.of_prefix (List.prefix_append _ _))
      have hothers := h history i chunk List.prefix_rfl
      -- the shared decoder and the decoder of `i` hold the same, so they do the same
      have hsame : (D.drain (sent history)).2 = (D.drain (sentBy i history)).2 :=
        hrest i hothers
      have hall := D.drain_append (sent history) chunk
      have hown := D.drain_append (sentBy i history) chunk
      rw [← sent_concat history i, hsame] at hall
      rw [← sentBy_concat_self] at hown
      constructor
      · rw [hall]
        refine hinter.append i _ ?_ ?_
        · rw [hown]
        · intro j hj
          rw [sentBy_concat_of_ne history hj]
      · intro k hk
        rw [hall]
        by_cases hki : k = i
        · rw [hki, hown]
        · have hempty := hk i fun heq => hki heq.symm
          rw [hown] at hempty
          rw [sentBy_concat_of_ne history hki, hothers k hki]
          exact hempty

end IncrementalDecoder
