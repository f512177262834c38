import Mathlib.Data.List.Infix
import Mathlib.Data.List.Nodup

/-!
# Group multicast

Members join a group and leave it, and values are cast to whoever is a member at the time.
A member that joins once sees the values that are cast between its joining and its leaving,
in the order in which they are cast; so of two members that are still there, the later one
sees the end of what the earlier one sees.

`Ordered` is the invariant: the members are listed in the order in which they joined, and of
two of them the later one sees a suffix of what the earlier one sees.  A value is cast to all
members, and is put behind both; a member that joins has seen nothing, which is a suffix of
everything.

## Main Definitions

* `Multicast.Group` — the members, and what was cast to whom
* `Change`, `step`, `run` — what happens to a group
* `view` — the values that were cast to one member

## Main Results

* `view_run_of_mem`, `view_run_of_notMem` — what a member sees, and what others see
* `Ordered.run` — members agree on the order, and the later ones see the end
-/

universe u v

namespace Multicast

/-- A value, and the members it was cast to. -/
structure Cast (M : Type u) (V : Type v) where
  members : List M
  value : V

/-- The members of a group in the order of their joining, and what was cast so far. -/
structure Group (M : Type u) (V : Type v) where
  members : List M
  log : List (Cast M V)

/-- What happens to a group. -/
inductive Change (M : Type u) (V : Type v)
  | join (m : M)
  | leave (m : M)
  | cast (value : V)

variable {M : Type u} {V : Type v}

namespace Change

/-- The member that joins. -/
def joining : Change M V → Option M
  | .join m => some m
  | .leave _ => none
  | .cast _ => none

/-- The member that leaves. -/
def leaving : Change M V → Option M
  | .join _ => none
  | .leave m => some m
  | .cast _ => none

/-- The value that is cast. -/
def casting : Change M V → Option V
  | .join _ => none
  | .leave _ => none
  | .cast value => some value

end Change

/-- The members that join, in their order. -/
def joins (changes : List (Change M V)) : List M := changes.filterMap Change.joining

/-- The members that leave. -/
def leaves (changes : List (Change M V)) : List M := changes.filterMap Change.leaving

/-- The values that are cast. -/
def casts (changes : List (Change M V)) : List V := changes.filterMap Change.casting

section Changes

variable (m : M) (value : V) (changes first second : List (Change M V))

@[simp] theorem joins_join : joins (.join m :: changes) = m :: joins changes := rfl

@[simp] theorem joins_leave : joins (.leave m :: changes) = joins changes := rfl

@[simp] theorem joins_cast : joins (.cast value :: changes) = joins changes := rfl

@[simp] theorem leaves_join : leaves (.join m :: changes) = leaves changes := rfl

@[simp] theorem leaves_leave : leaves (.leave m :: changes) = m :: leaves changes := rfl

@[simp] theorem leaves_cast : leaves (.cast value :: changes) = leaves changes := rfl

@[simp] theorem casts_join : casts (.join m :: changes) = casts changes := rfl

@[simp] theorem casts_leave : casts (.leave m :: changes) = casts changes := rfl

@[simp] theorem casts_cast : casts (.cast value :: changes) = value :: casts changes := rfl

@[simp] theorem joins_append : joins (first ++ second) = joins first ++ joins second :=
  List.filterMap_append

@[simp] theorem leaves_append : leaves (first ++ second) = leaves first ++ leaves second :=
  List.filterMap_append

@[simp] theorem casts_append : casts (first ++ second) = casts first ++ casts second :=
  List.filterMap_append

end Changes

/-- Values that are cast without anyone coming or going. -/
theorem changes_map_cast (values : List V) :
    joins (values.map (Change.cast (M := M))) = [] ∧
      leaves (values.map (Change.cast (M := M))) = [] ∧
      casts (values.map (Change.cast (M := M))) = values := by
  induction values with
  | nil => exact ⟨rfl, rfl, rfl⟩
  | cons value values ih =>
      obtain ⟨hjoins, hleaves, hcasts⟩ := ih
      exact ⟨hjoins, hleaves, congrArg (value :: ·) hcasts⟩

namespace Group

/-- The values that were cast. -/
def values (g : Group M V) : List V := g.log.map Cast.value

variable [DecidableEq M]

/-- One change. -/
def step (g : Group M V) : Change M V → Group M V
  | .join m => { g with members := g.members ++ [m] }
  | .leave m => { g with members := g.members.erase m }
  | .cast value => { g with log := g.log ++ [⟨g.members, value⟩] }

/-- One change after the other. -/
def run (g : Group M V) (changes : List (Change M V)) : Group M V := changes.foldl step g

@[simp] theorem run_nil (g : Group M V) : g.run [] = g := rfl

@[simp] theorem run_cons (g : Group M V) (change : Change M V) (changes : List (Change M V)) :
    g.run (change :: changes) = (g.step change).run changes := rfl

/-- Changes can be made one part after the other. -/
theorem run_append (g : Group M V) (first second : List (Change M V)) :
    g.run (first ++ second) = (g.run first).run second := List.foldl_append

/-- What one member was sent. -/
def view (g : Group M V) (m : M) : List V :=
  (g.log.filter fun c => m ∈ c.members).map Cast.value

/-! ## What a member sees -/

@[simp] theorem view_join (g : Group M V) (m m' : M) : (g.step (.join m')).view m = g.view m :=
  rfl

@[simp] theorem view_leave (g : Group M V) (m m' : M) : (g.step (.leave m')).view m = g.view m :=
  rfl

/-- A value is seen by those who are members. -/
theorem view_cast (g : Group M V) (m : M) (value : V) :
    (g.step (.cast value)).view m = g.view m ++ if m ∈ g.members then [value] else [] := by
  by_cases hm : m ∈ g.members <;> simp [view, step, hm]

/-- **A member that does not leave** stays, and sees everything that is cast. -/
theorem view_run_of_mem {g : Group M V} {m : M} {changes : List (Change M V)}
    (hm : m ∈ g.members) (hstays : m ∉ leaves changes) :
    m ∈ (g.run changes).members ∧ (g.run changes).view m = g.view m ++ casts changes := by
  induction changes generalizing g with
  | nil => exact ⟨hm, (List.append_nil _).symm⟩
  | cons change changes ih =>
      cases change with
      | join m' => exact ih (List.mem_append_left _ hm) hstays
      | leave m' =>
          obtain ⟨hne, hrest⟩ := not_or.mp (mt List.mem_cons.mpr hstays)
          exact ih ((List.mem_erase_of_ne hne).mpr hm) hrest
      | cast value =>
          obtain ⟨hmem, hview⟩ := ih (g := g.step (.cast value)) hm hstays
          refine ⟨hmem, ?_⟩
          rw [run_cons, hview, view_cast, if_pos hm, casts_cast, List.append_assoc,
            List.singleton_append]

/-- Joining and leaving do not matter to others. -/
theorem notMem_members_step {g : Group M V} {m : M} {change : Change M V}
    (hm : m ∉ g.members) (hstays : m ∉ joins [change]) : m ∉ (g.step change).members := by
  cases change with
  | join m' =>
      intro hmem
      rcases List.mem_append.mp hmem with hold | hnew
      · exact hm hold
      · exact hstays hnew
  | leave m' => exact mt List.mem_of_mem_erase hm
  | cast value => exact hm

/-- Who is not a member sees nothing. -/
theorem view_step_of_notMem {g : Group M V} {m : M} (hm : m ∉ g.members)
    (change : Change M V) : (g.step change).view m = g.view m := by
  cases change with
  | join m' => rfl
  | leave m' => rfl
  | cast value => rw [view_cast, if_neg hm, List.append_nil]

/-- **Who is not a member and does not join** sees nothing. -/
theorem view_run_of_notMem {g : Group M V} {m : M} {changes : List (Change M V)}
    (hm : m ∉ g.members) (hstays : m ∉ joins changes) :
    m ∉ (g.run changes).members ∧ (g.run changes).view m = g.view m := by
  induction changes generalizing g with
  | nil => exact ⟨hm, rfl⟩
  | cons change changes ih =>
      rw [← List.singleton_append, joins_append, List.mem_append, not_or] at hstays
      obtain ⟨hmem, hview⟩ := ih (notMem_members_step hm hstays.1) hstays.2
      exact ⟨hmem, hview.trans (view_step_of_notMem hm change)⟩

/-- What is cast in a run is put behind what was cast before. -/
@[simp] theorem values_run (g : Group M V) (changes : List (Change M V)) :
    (g.run changes).values = g.values ++ casts changes := by
  induction changes generalizing g with
  | nil => exact (List.append_nil _).symm
  | cons change changes ih =>
      rw [run_cons, ih]
      cases change with
      | join m => rfl
      | leave m => rfl
      | cast value => simp [values, step]

/-! ## The order in which members see values -/

/-- Everyone has seen a part of what was cast, without gaps; the members have seen its
end, and of two of them the later one the end of what the earlier one has seen. -/
structure Ordered (g : Group M V) : Prop where
  seen : ∀ m, g.view m <:+: g.values
  members : ∀ m ∈ g.members, g.view m <:+ g.values
  later : g.members.Pairwise fun m m' => g.view m' <:+ g.view m

/-- A group nobody has joined is ordered. -/
theorem ordered_empty : Ordered (⟨[], []⟩ : Group M V) where
  seen := fun _ => List.infix_refl _
  members := fun _ hm => absurd hm List.not_mem_nil
  later := List.Pairwise.nil

/-- Who joins has not seen anything yet. -/
theorem Ordered.join {g : Group M V} (h : g.Ordered) {m : M} (hnew : g.view m = []) :
    (g.step (.join m)).Ordered where
  seen := h.seen
  members := by
    intro m' hm'
    rcases List.mem_append.mp hm' with hold | hlast
    · exact h.members m' hold
    · rw [List.mem_singleton.mp hlast, view_join, hnew]
      exact List.nil_suffix
  later := by
    refine List.pairwise_append.mpr ⟨h.later, List.pairwise_singleton _ _, ?_⟩
    intro m' _ m'' hm''
    rw [List.mem_singleton.mp hm'', view_join, hnew]
    exact List.nil_suffix

/-- Who leaves does not disturb the others. -/
theorem Ordered.leave {g : Group M V} (h : g.Ordered) (m : M) :
    (g.step (.leave m)).Ordered where
  seen := h.seen
  members := fun m' hm' => h.members m' (List.mem_of_mem_erase hm')
  later := h.later.sublist List.erase_sublist

/-- A value behind both sequences leaves the later one a suffix. -/
theorem suffix_concat {xs ys : List V} (h : xs <:+ ys) (value : V) :
    xs ++ [value] <:+ ys ++ [value] :=
  (List.suffix_append_inj_of_length_eq rfl).mpr ⟨h, rfl⟩

/-- A value comes to the end of what each member has seen. -/
theorem Ordered.cast {g : Group M V} (h : g.Ordered) (value : V) :
    (g.step (.cast value)).Ordered := by
  have hvalues : (g.step (.cast value)).values = g.values ++ [value] := by
    simp [values, step]
  have hmembers : ∀ m ∈ g.members, (g.step (.cast value)).view m = g.view m ++ [value] := by
    intro m hm
    rw [view_cast, if_pos hm]
  refine ⟨?_, ?_, ?_⟩
  · intro m
    rw [hvalues]
    by_cases hm : m ∈ g.members
    · rw [hmembers m hm]
      exact (suffix_concat (h.members m hm) value).isInfix
    · rw [view_cast, if_neg hm, List.append_nil]
      exact (h.seen m).trans (List.prefix_append _ _).isInfix
  · intro m hm
    rw [hvalues, hmembers m hm]
    exact suffix_concat (h.members m hm) value
  · refine h.later.imp_of_mem ?_
    intro m m' hm hm' hsuffix
    rw [hmembers m hm, hmembers m' hm']
    exact suffix_concat hsuffix value

/-- **Members agree on the order**, when everyone joins at most once and before having
seen anything. -/
theorem Ordered.run {g : Group M V} (h : g.Ordered) {changes : List (Change M V)}
    (honce : (joins changes).Nodup) (hnew : ∀ m ∈ joins changes, m ∉ g.members ∧ g.view m = []) :
    (g.run changes).Ordered := by
  induction changes generalizing g with
  | nil => exact h
  | cons change changes ih =>
      have hkeep : ∀ m ∈ joins changes, m ∉ joins [change] →
          m ∉ (g.step change).members ∧ (g.step change).view m = [] := by
        intro m hm hother
        have hmem : m ∈ joins (change :: changes) := by
          rw [← List.singleton_append, joins_append]
          exact List.mem_append_right _ hm
        obtain ⟨hout, hview⟩ := hnew m hmem
        exact ⟨notMem_members_step hout hother, (view_step_of_notMem hout change).trans hview⟩
      rw [run_cons]
      cases change with
      | join m =>
          obtain ⟨hfirst, hrest⟩ := List.nodup_cons.mp honce
          refine ih (h.join (hnew m List.mem_cons_self).2) hrest ?_
          intro m' hm'
          exact hkeep m' hm' fun hmem => hfirst (List.mem_singleton.mp hmem ▸ hm')
      | leave m => exact ih (h.leave m) honce fun m' hm' => hkeep m' hm' List.not_mem_nil
      | cast value => exact ih (h.cast value) honce fun m' hm' => hkeep m' hm' List.not_mem_nil

end Group

end Multicast
