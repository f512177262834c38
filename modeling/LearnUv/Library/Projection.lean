import LearnUv.Library.AbortingRun

/-!
# One party's part of a run

Several parties share a state, and each event belongs to one of them.  A party is isolated
from the others when it sees in the run what it sees when its own events happen alone.

A simulation between the run and the party's part of it proves that, and if it can only
break in one kind of step, isolation is a condition on the steps of the run.

The party's part of the run is the filtered history.  The simulation relates the state of the
run with that of the part: an event of another party has to keep the relation with the part
standing still, and an event of the party has to keep it with both moving on.

## Main Definitions

* `alone` — the events of one party
* `Isolated` — every party sees what it sees alone, at every time
* `Simulation` — what relates a run to the parts of the parties

## Main Results

* `Simulation.exists_alone` — a run whose steps are allowed is simulated by each part
* `Simulation.isolated_iff` — isolation, as a condition on the steps
-/

namespace AbortingRun

universe u v w x y

variable {ε : Type u} {σ : Type v} {α : Type w} {ι : Type x} {β : Type y} [DecidableEq ι]

/-- The events of one party. -/
def alone (party : α → ι) (i : ι) (events : List α) : List α :=
  events.filter fun event => party event = i

theorem alone_concat_self (party : α → ι) (events : List α) (event : α) :
    alone party (party event) (events ++ [event]) =
      alone party (party event) events ++ [event] := by
  simp [alone]

theorem alone_concat_of_ne {party : α → ι} {i : ι} {event : α} (h : party event ≠ i)
    (events : List α) : alone party i (events ++ [event]) = alone party i events := by
  simp [alone, h]

/-- At every time of the run, every party sees what it sees when its events happen
alone. -/
def Isolated (step : σ → α → Except ε σ) (enabled : σ → α → Prop) (s₀ : σ) (party : α → ι)
    (view : ι → σ → β) (events : List α) : Prop :=
  ∀ i before s, before <+: events → run step s₀ before = .ok s →
    ∃ u, Reaches step enabled s₀ (alone party i before) u ∧ view i u = view i s

/-- `related i` relates the states of a run to those of the part of `i`.  A step of the
party itself keeps the relation if it is allowed, and shows if it is not; steps of others do
not matter. -/
structure Simulation (step : σ → α → Except ε σ) (enabled : σ → α → Prop) (s₀ : σ)
    (party : α → ι) (view : ι → σ → β) (related : ι → σ → σ → Prop)
    (allowed : σ → α → Prop) : Prop where
  start : ∀ i, related i s₀ s₀
  view_eq : ∀ {i s u}, related i s u → view i u = view i s
  own : ∀ {s u t event}, related (party event) s u → enabled s event →
    step s event = .ok t → allowed s event →
      ∃ v, enabled u event ∧ step u event = .ok v ∧ related (party event) t v
  other : ∀ {i s u t event}, party event ≠ i → related i s u → enabled s event →
    step s event = .ok t → related i t u
  shows : ∀ {s u t v event}, related (party event) s u → enabled s event →
    step s event = .ok t → step u event = .ok v →
      view (party event) v = view (party event) t → allowed s event

namespace Simulation

variable {step : σ → α → Except ε σ} {enabled : σ → α → Prop} {s₀ : σ} {party : α → ι}
  {view : ι → σ → β} {related : ι → σ → σ → Prop} {allowed : σ → α → Prop}

/-- **A run whose steps are allowed** is simulated by the part of each party. -/
theorem exists_alone (hsim : Simulation step enabled s₀ party view related allowed)
    {events : List α} {s : σ} (h : Reaches step enabled s₀ events s)
    (hallowed : EachStep step allowed s₀ events) (i : ι) :
    ∃ u, Reaches step enabled s₀ (alone party i events) u ∧ related i s u := by
  induction h with
  | start => exact ⟨s₀, .start, hsim.start i⟩
  | @event events s t event before hevent hret ih =>
      obtain ⟨hbefore, hlast⟩ := eachStep_append.mp hallowed
      obtain ⟨u, hu, hrelated⟩ := ih hbefore
      rcases eq_or_ne (party event) i with rfl | hother
      · obtain ⟨v, henabled, hv, hnext⟩ :=
          hsim.own hrelated hevent hret (hlast s before.run_eq_ok).1
        rw [alone_concat_self]
        exact ⟨v, hu.event henabled hv, hnext⟩
      · rw [alone_concat_of_ne hother]
        exact ⟨u, hu, hsim.other hother hrelated hevent hret⟩

/-- **Isolation is a condition on the steps of the run.** -/
theorem isolated_iff (hsim : Simulation step enabled s₀ party view related allowed)
    {events : List α} {s : σ} (h : Reaches step enabled s₀ events s) :
    Isolated step enabled s₀ party view events ↔ EachStep step allowed s₀ events := by
  constructor
  · intro hisolated
    induction h with
    | start => trivial
    | @event events s t event before hevent hret ih =>
        have hbefore := ih fun i first u hfirst hu =>
          hisolated i first u (hfirst.trans (List.prefix_append _ _)) hu
        refine eachStep_append.mpr ⟨hbefore, ?_⟩
        intro s' hs'
        obtain rfl := ok_unique before.run_eq_ok hs'
        refine ⟨?_, fun _ _ => trivial⟩
        obtain ⟨u, hu, hrelated⟩ := hsim.exists_alone before hbefore (party event)
        obtain ⟨v, hv, hview⟩ := hisolated (party event) (events ++ [event]) t
          (List.prefix_refl _) (before.event hevent hret).run_eq_ok
        rw [alone_concat_self] at hv
        obtain ⟨u', hu', -, hstep⟩ := hv.of_concat
        obtain rfl := ok_unique hu.run_eq_ok hu'.run_eq_ok
        exact hsim.shows hrelated hevent hret hstep hview
  · intro hallowed i first t hfirst hrun
    obtain ⟨t', ht'⟩ := h.of_prefix hfirst
    obtain rfl := ok_unique hrun ht'.run_eq_ok
    obtain ⟨rest, rfl⟩ := hfirst
    obtain ⟨u, hu, hrelated⟩ := hsim.exists_alone ht' (eachStep_append.mp hallowed).1 i
    exact ⟨u, hu, hsim.view_eq hrelated⟩

end Simulation

end AbortingRun
