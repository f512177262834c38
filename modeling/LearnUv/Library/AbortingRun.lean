import Mathlib.Data.List.Basic
import Mathlib.Data.List.Induction

/-!
# Runs of a program that may abort

A program that reacts to events one at a time, and that may stop for good in the
middle of one of them, is a step function into `Except`.  A run is the left fold
of that function over the events; it is `.ok` exactly when every step returned.

## Main Definitions

* `run` — the fold of an aborting step function over a list of events
* `Always`, `EachStep` — what holds in every state a run passes through, and what holds of
  every event where it is handled
* `Reaches` — the runs in which the environment only causes events it may cause in the
  state it causes them in
* `runEnabled` — such a run, computed

## Main Results

* `run_append_eq_ok` — a run splits at every point of its event list
* `run_eq_error` — a run that aborts does so in one particular step
* `run_induction` — the history-indexed induction principle: what holds at the
  start and is preserved by every step that returns holds of every state reached
* `always_iff_eachStep` — a property holds throughout a run exactly when every step is one
  that keeps it
* `Reaches.invariant` — induction for runs in an environment
* `Reaches.run_eq_ok`, `Reaches.of_prefix`, `Reaches.of_concat` — such a run is a run, and so
  is each of its initial segments
-/

namespace AbortingRun

universe u v w

variable {ε : Type u} {σ : Type v} {α : Type w}

section Bind

variable {β : Type v}

/-- A sequence returns exactly when its first part does and its second part does
from there. -/
theorem bind_eq_ok {x : Except ε σ} {f : σ → Except ε β} {b : β} :
    x >>= f = .ok b ↔ ∃ a, x = .ok a ∧ f a = .ok b := by
  cases x with
  | ok a =>
      constructor
      · exact fun h => ⟨a, rfl, h⟩
      · rintro ⟨_, ha, h⟩
        cases ha
        exact h
  | error e =>
      constructor
      · intro h
        cases h
      · rintro ⟨_, ha, -⟩
        cases ha

/-- A sequence aborts in its first part, or after it. -/
theorem bind_eq_error {x : Except ε σ} {f : σ → Except ε β} {e : ε} :
    x >>= f = .error e ↔ x = .error e ∨ ∃ a, x = .ok a ∧ f a = .error e := by
  cases x with
  | ok a =>
      constructor
      · exact fun h => Or.inr ⟨a, rfl, h⟩
      · rintro (ha | ⟨_, ha, h⟩)
        · cases ha
        · cases ha
          exact h
  | error e' =>
      constructor
      · intro h
        cases h
        exact Or.inl rfl
      · rintro (h | ⟨_, ha, -⟩)
        · cases h
          rfl
        · cases ha

@[simp] theorem ok_bind (a : σ) (f : σ → Except ε β) :
    (Except.ok a >>= f) = f a := rfl

@[simp] theorem error_bind (e : ε) (f : σ → Except ε β) :
    ((Except.error e : Except ε σ) >>= f) = .error e := rfl

@[simp] theorem pure_eq_ok (a : σ) : (pure a : Except ε σ) = .ok a := rfl

/-- What is returned is determined. -/
theorem ok_unique {x : Except ε σ} {a b : σ} (ha : x = .ok a) (hb : x = .ok b) : a = b :=
  Except.ok.inj (ha.symm.trans hb)

/-- A run that is computed to return has a state it ends in. -/
theorem exists_eq_ok {x : Except ε σ} (h : x.isOk = true) : ∃ a, x = .ok a := by
  cases x with
  | ok a => exact ⟨a, rfl⟩
  | error e => cases h

/-- A run of which something is computed has a state it ends in, with that property. -/
theorem exists_of_map_eq_ok {x : Except ε σ} {f : σ → β} {b : β} (h : x.map f = .ok b) :
    ∃ a, x = .ok a ∧ f a = b := by
  cases x with
  | ok a => exact ⟨a, rfl, Except.ok.inj h⟩
  | error e => cases h

end Bind

variable (step : σ → α → Except ε σ)

/-- The run of `step` over a list of events: every event is handled in the state
its predecessors left, and the first abort ends the run. -/
def run (s : σ) (events : List α) : Except ε σ := events.foldlM step s

@[simp] theorem run_nil (s : σ) : run step s [] = .ok s := rfl

theorem run_cons (s : σ) (event : α) (events : List α) :
    run step s (event :: events) = step s event >>= fun t => run step t events := by
  simp [run]

/-- A run over a concatenation is the run over the second part from where the
first one ended. -/
theorem run_append (s : σ) (first second : List α) :
    run step s (first ++ second) =
      run step s first >>= fun t => run step t second := by
  simp [run]

/-- A run returns exactly when its two halves do. -/
theorem run_append_eq_ok {s u : σ} {first second : List α} :
    run step s (first ++ second) = .ok u ↔
      ∃ t, run step s first = .ok t ∧ run step t second = .ok u := by
  rw [run_append, bind_eq_ok]

/-- A run with one more event at its end. -/
theorem run_concat_eq_ok {s u : σ} {events : List α} {event : α} :
    run step s (events ++ [event]) = .ok u ↔
      ∃ t, run step s events = .ok t ∧ step t event = .ok u := by
  rw [run_append_eq_ok]
  refine exists_congr fun t => and_congr_right fun _ => ?_
  rw [run_cons, bind_eq_ok]
  simp

/-- Every initial segment of a run that returns has itself returned. -/
theorem run_prefix_ok {s u : σ} {first events : List α} (hpre : first <+: events)
    (hrun : run step s events = .ok u) : ∃ t, run step s first = .ok t := by
  obtain ⟨second, rfl⟩ := hpre
  obtain ⟨t, ht, -⟩ := (run_append_eq_ok step).mp hrun
  exact ⟨t, ht⟩

/-- **Where a run aborts.**  An aborted run returned from some initial segment of
its events and aborted in the step of the next one. -/
theorem run_eq_error {s : σ} {events : List α} {e : ε}
    (hrun : run step s events = .error e) :
    ∃ before event after t, events = before ++ event :: after ∧
      run step s before = .ok t ∧ step t event = .error e := by
  induction events generalizing s with
  | nil => cases hrun
  | cons event events ih =>
      rw [run_cons, bind_eq_error] at hrun
      rcases hrun with hstep | ⟨t, hstep, hrest⟩
      · exact ⟨[], event, events, s, rfl, rfl, hstep⟩
      · obtain ⟨before, event', after, u, rfl, hbefore, herr⟩ := ih hrest
        refine ⟨event :: before, event', after, u, rfl, ?_, herr⟩
        rw [run_cons, hstep]
        exact hbefore

/-- **Induction over runs.**  A property of the history and the state that holds
at the start and survives every step that returns holds of every state a run
reaches. -/
theorem run_induction {P : List α → σ → Prop} {s₀ : σ} (hinit : P [] s₀)
    (hstep : ∀ history s event t, run step s₀ history = .ok s → P history s →
      step s event = .ok t → P (history ++ [event]) t)
    {events : List α} {t : σ} (hrun : run step s₀ events = .ok t) :
    P events t := by
  induction events using List.reverseRecOn generalizing t with
  | nil => cases hrun; exact hinit
  | append_singleton events event ih =>
      obtain ⟨s, hs, hlast⟩ := (run_concat_eq_ok step).mp hrun
      exact hstep events s event t hs (ih hs) hlast

/-! ## Properties of the whole of a run -/

section Throughout

/-- `P` holds in every state the run passes through, the first one included. -/
def Always (P : σ → Prop) : σ → List α → Prop
  | s, [] => P s
  | s, event :: events => P s ∧ ∀ t, step s event = .ok t → Always P t events

/-- `Q` holds of every event in the state it is handled in. -/
def EachStep (Q : σ → α → Prop) : σ → List α → Prop
  | _, [] => True
  | s, event :: events => Q s event ∧ ∀ t, step s event = .ok t → EachStep Q t events

variable {step}

/-- `Always` speaks of the states the initial segments of the run end in. -/
theorem always_iff {P : σ → Prop} {s : σ} {events : List α} :
    Always step P s events ↔
      ∀ before t, before <+: events → run step s before = .ok t → P t := by
  induction events generalizing s with
  | nil =>
      constructor
      · intro hP before t hbefore hrun
        rw [List.prefix_nil.mp hbefore] at hrun
        cases hrun
        exact hP
      · intro h
        exact h [] s List.nil_prefix rfl
  | cons event events ih =>
      constructor
      · rintro ⟨hP, hrest⟩ before t hbefore hrun
        rcases List.prefix_cons_iff.mp hbefore with rfl | ⟨before', rfl, hbefore'⟩
        · cases hrun
          exact hP
        · rw [run_cons, bind_eq_ok] at hrun
          obtain ⟨u, hu, hrun⟩ := hrun
          exact ih.mp (hrest u hu) before' t hbefore' hrun
      · intro h
        refine ⟨h [] s List.nil_prefix rfl, fun t ht => ih.mpr ?_⟩
        intro before u hbefore hrun
        refine h (event :: before) u (List.prefix_cons_inj event |>.mpr hbefore) ?_
        rw [run_cons, ht]
        exact hrun

/-- What holds throughout a run holds throughout its initial segments. -/
theorem always_of_prefix {P : σ → Prop} {s : σ} {before events : List α}
    (h : Always step P s events) (hbefore : before <+: events) : Always step P s before :=
  always_iff.mpr fun first t hfirst hrun => always_iff.mp h first t (hfirst.trans hbefore) hrun

/-- What holds of every event of a run whose first step returns. -/
theorem eachStep_cons_of_ok {Q : σ → α → Prop} {s t : σ} {event : α} {events : List α}
    (h : step s event = .ok t) :
    EachStep step Q s (event :: events) ↔ Q s event ∧ EachStep step Q t events := by
  simp only [EachStep, h, Except.ok.injEq, forall_eq']

/-- What holds of every event of a concatenation. -/
theorem eachStep_append {Q : σ → α → Prop} {s : σ} {first second : List α} :
    EachStep step Q s (first ++ second) ↔
      EachStep step Q s first ∧ ∀ t, run step s first = .ok t → EachStep step Q t second := by
  induction first generalizing s with
  | nil => simp [EachStep]
  | cons event first ih =>
      simp only [List.cons_append, EachStep, ih, run_cons, bind_eq_ok, and_assoc]
      refine and_congr_right fun _ => ?_
      constructor
      · intro h
        refine ⟨fun t ht => (h t ht).1, ?_⟩
        rintro u ⟨t, ht, hu⟩
        exact (h t ht).2 u hu
      · rintro ⟨hfirst, hsecond⟩ t ht
        exact ⟨hfirst t ht, fun u hu => hsecond u ⟨t, ht, hu⟩⟩

/-- Two things hold of every event exactly when each of them does. -/
theorem eachStep_and {Q R : σ → α → Prop} {s : σ} {events : List α} :
    EachStep step (fun s event => Q s event ∧ R s event) s events ↔
      EachStep step Q s events ∧ EachStep step R s events := by
  induction events generalizing s with
  | nil => simp [EachStep]
  | cons event events ih =>
      simp only [EachStep, ih]
      constructor
      · rintro ⟨⟨hQ, hR⟩, hrest⟩
        exact ⟨⟨hQ, fun t ht => (hrest t ht).1⟩, hR, fun t ht => (hrest t ht).2⟩
      · rintro ⟨⟨hQ, hQrest⟩, hR, hRrest⟩
        exact ⟨⟨hQ, hR⟩, fun t ht => ⟨hQrest t ht, hRrest t ht⟩⟩

/-- **When a property holds throughout.**  An invariant from which the property follows,
and which a step keeps exactly when it is one of the allowed ones, turns "always" into a
condition on the steps: a step that is not allowed leads to a state without the property. -/
theorem always_iff_eachStep {P I : σ → Prop} {enabled allowed : σ → α → Prop}
    (hsafe : ∀ s, I s → P s)
    (hkeep : ∀ s event t, I s → enabled s event → step s event = .ok t →
      allowed s event → I t)
    (hbreak : ∀ s event t, I s → enabled s event → step s event = .ok t → P t →
      allowed s event)
    (hstop : ∀ s event e, I s → enabled s event → step s event = .error e → allowed s event)
    {s : σ} {events : List α} (hs : I s) (henabled : EachStep step enabled s events) :
    Always step P s events ↔ EachStep step allowed s events := by
  have hnow : ∀ {s : σ} {events : List α}, Always step P s events → P s := by
    intro s events h
    cases events with
    | nil => exact h
    | cons event events => exact h.1
  induction events generalizing s with
  | nil => exact ⟨fun _ => trivial, fun _ => hsafe s hs⟩
  | cons event events ih =>
      obtain ⟨hevent, hrest⟩ := henabled
      cases hstep : step s event with
      | error e =>
          simp [Always, EachStep, hstep, hsafe s hs, hstop s event e hs hevent hstep]
      | ok t =>
          -- behind an event that is allowed, the two agree
          have hiff : allowed s event →
              (Always step P t events ↔ EachStep step allowed t events) :=
            fun hallowed => ih (hkeep s event t hs hevent hstep hallowed) (hrest t hstep)
          constructor
          · rintro ⟨-, halways⟩
            have ht := halways t hstep
            have hallowed := hbreak s event t hs hevent hstep (hnow ht)
            refine ⟨hallowed, fun u hu => ?_⟩
            obtain rfl := ok_unique hstep hu
            exact (hiff hallowed).mp ht
          · rintro ⟨hallowed, heach⟩
            refine ⟨hsafe s hs, fun u hu => ?_⟩
            obtain rfl := ok_unique hstep hu
            exact (hiff hallowed).mpr (heach t hstep)

/-- Events that each return where they are enabled return one after the other. -/
theorem exists_run_of_eachStep {enabled : σ → α → Prop}
    (hreturns : ∀ s event, enabled s event → ∃ t, step s event = .ok t) {s : σ}
    {events : List α} (henabled : EachStep step enabled s events) :
    ∃ t, run step s events = .ok t := by
  induction events generalizing s with
  | nil => exact ⟨s, rfl⟩
  | cons event events ih =>
      obtain ⟨hevent, hrest⟩ := henabled
      obtain ⟨u, hstep⟩ := hreturns s event hevent
      obtain ⟨t, hrun⟩ := ih (hrest u hstep)
      refine ⟨t, ?_⟩
      rw [run_cons, hstep]
      exact hrun

/-- What holds of every event of a run holds of each where an initial segment has led. -/
theorem eachStep_at {Q : σ → α → Prop} {s t : σ} {before : List α} {event : α}
    {events : List α} (h : EachStep step Q s events) (hbefore : before ++ [event] <+: events)
    (hrun : run step s before = .ok t) : Q t event := by
  obtain ⟨after, rfl⟩ := hbefore
  exact ((eachStep_append.mp (eachStep_append.mp h).1).2 t hrun).1

/-- A condition that the state does not matter for is one on the events, when each of them
returns where it is enabled. -/
theorem eachStep_iff_forall_mem {Q : α → Prop} {enabled : σ → α → Prop}
    (hreturns : ∀ s event, enabled s event → ∃ t, step s event = .ok t) {s : σ}
    {events : List α} (henabled : EachStep step enabled s events) :
    EachStep step (fun _ => Q) s events ↔ ∀ event ∈ events, Q event := by
  induction events generalizing s with
  | nil => simp [EachStep]
  | cons event events ih =>
      obtain ⟨hevent, hrest⟩ := henabled
      obtain ⟨t, hstep⟩ := hreturns s event hevent
      simp [EachStep, hstep, ih (hrest t hstep)]

end Throughout

/-! ## Runs of a program in its environment -/

section Environment

variable (enabled : σ → α → Prop) (s₀ : σ)

/-- The states the program reaches, with the events that led there, when the environment
causes only events that are enabled. -/
inductive Reaches : List α → σ → Prop
  | start : Reaches [] s₀
  | event {history : List α} {s t : σ} {event : α} (before : Reaches history s)
      (hevent : enabled s event) (hstep : step s event = .ok t) :
      Reaches (history ++ [event]) t

variable {step enabled s₀}

/-- **Invariants of a program in its environment** hold at the start and survive every
enabled event. -/
theorem Reaches.invariant {P : σ → Prop} {history : List α} {t : σ}
    (h : Reaches step enabled s₀ history t) (hinit : P s₀)
    (hstep : ∀ s event t, P s → enabled s event → step s event = .ok t → P t) : P t := by
  induction h with
  | start => exact hinit
  | event before hevent hret ih => exact hstep _ _ _ ih hevent hret

/-- What is reached is the end of a run. -/
theorem Reaches.run_eq_ok {history : List α} {s : σ}
    (h : Reaches step enabled s₀ history s) : run step s₀ history = .ok s := by
  induction h with
  | start => rfl
  | event before hevent hret ih => exact (run_concat_eq_ok step).mpr ⟨_, ih, hret⟩

/-- The states a run passes through are reached. -/
theorem Reaches.of_prefix {history before : List α} {s : σ}
    (h : Reaches step enabled s₀ history s) (hbefore : before <+: history) :
    ∃ t, Reaches step enabled s₀ before t := by
  induction h with
  | start =>
      rw [List.prefix_nil.mp hbefore]
      exact ⟨s₀, .start⟩
  | event hhistory hevent hret ih =>
      rcases List.prefix_concat_iff.mp hbefore with rfl | hshorter
      · exact ⟨_, hhistory.event hevent hret⟩
      · exact ih hshorter

/-- Invariants that only some steps keep hold after runs of such steps. -/
theorem Reaches.invariant_of_eachStep {P : σ → Prop} {allowed : σ → α → Prop}
    {history : List α} {t : σ} (h : Reaches step enabled s₀ history t)
    (hallowed : EachStep step allowed s₀ history) (hinit : P s₀)
    (hstep : ∀ s event t, P s → enabled s event → allowed s event → step s event = .ok t →
      P t) : P t := by
  induction h with
  | start => exact hinit
  | @event history s t event before hevent hret ih =>
      obtain ⟨hbefore, hlast⟩ := eachStep_append.mp hallowed
      exact hstep s event t (ih hbefore) hevent (hlast s before.run_eq_ok).1 hret

/-- The last event of what is reached. -/
theorem Reaches.of_concat {history : List α} {event : α} {t : σ}
    (h : Reaches step enabled s₀ (history ++ [event]) t) :
    ∃ s, Reaches step enabled s₀ history s ∧ enabled s event ∧ step s event = .ok t := by
  generalize hwhole : history ++ [event] = whole at h
  cases h with
  | start => exact absurd hwhole (by simp)
  | event before hevent hret =>
      obtain ⟨rfl, hlast⟩ := List.append_inj' hwhole rfl
      cases hlast
      exact ⟨_, before, hevent, hret⟩

/-- The state reached, computed: `none` when an event is not enabled where it would be
handled, or a step aborts. -/
def runEnabled (step : σ → α → Except ε σ) (enabled : σ → α → Prop)
    [∀ s event, Decidable (enabled s event)] : σ → List α → Option σ
  | s, [] => some s
  | s, event :: events =>
      if enabled s event then
        match step s event with
        | .ok t => runEnabled step enabled t events
        | .error _ => none
      else none

/-- What is computed to be reached is reached. -/
theorem Reaches.of_runEnabled [∀ s event, Decidable (enabled s event)] {history : List α}
    {s : σ} (h : Reaches step enabled s₀ history s) {events : List α} {t : σ}
    (hrun : runEnabled step enabled s events = some t) :
    Reaches step enabled s₀ (history ++ events) t := by
  induction events generalizing history s with
  | nil =>
      cases hrun
      rwa [List.append_nil]
  | cons event events ih =>
      rw [runEnabled] at hrun
      split at hrun
      · next henabled =>
          split at hrun
          · next u hstep =>
              have hnext := ih (h.event henabled hstep) hrun
              rwa [List.append_assoc, List.singleton_append] at hnext
          · cases hrun
      · cases hrun

/-- A run that is computed handles each event where it is enabled. -/
theorem eachStep_of_runEnabled [∀ s event, Decidable (enabled s event)] {s : σ}
    {events : List α} (hrun : (runEnabled step enabled s events).isSome = true) :
    EachStep step enabled s events := by
  induction events generalizing s with
  | nil => trivial
  | cons event events ih =>
      rw [runEnabled] at hrun
      split at hrun
      · next henabled =>
          refine ⟨henabled, ?_⟩
          intro t ht
          rw [ht] at hrun
          exact ih hrun
      · cases hrun

end Environment

end AbortingRun
