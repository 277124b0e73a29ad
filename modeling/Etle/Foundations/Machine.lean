import Mathlib.Algebra.BigOperators.Fin
import Mathlib.Data.Fintype.BigOperators
import Mathlib.Logic.Relation
import Mathlib.Tactic.Abel

/-!
# Event-driven machines

A machine is a partial step function: an event that is not enabled in a state has no successor.
A run is the list of the events taken, so quantifying over runs is quantifying over every
schedule and every choice of the environment.  Invariants are proved for one step and transported
along runs here, once; blocked states are found by a measure that every step decreases.
-/

namespace Etle

/-- A transition system whose successor is selected by an event. -/
structure Machine (State Event : Type*) where
  /-- The successor of a state under an event, if the event is enabled there. -/
  step : State → Event → Option State

namespace Machine

/-- Take the listed events one after another, failing at the first one that is not enabled. -/
def run {State Event : Type*} (machine : Machine State Event) :
    State → List Event → Option State
  | state, [] => some state
  | state, event :: events => (machine.step state event).bind fun next => machine.run next events

/-- Some run leads from the first state to the second. -/
def Reaches {State Event : Type*} (machine : Machine State Event) (before after : State) : Prop :=
  ∃ events, machine.run before events = some after

/-- No event is enabled. -/
def Blocked {State Event : Type*} (machine : Machine State Event) (state : State) : Prop :=
  ∀ event, machine.step state event = none

/-- Every event of the run satisfies a condition on the state it is taken in. -/
def Obeys {State Event : Type*} (machine : Machine State Event)
    (allowed : State → Event → Prop) : State → List Event → Prop
  | _, [] => True
  | state, event :: events =>
      allowed state event ∧
        ∀ next, machine.step state event = some next → machine.Obeys allowed next events

/-- The steps that the listed events take, up to the first event that is not enabled. -/
def trace {State Event : Type*} (machine : Machine State Event) :
    State → List Event → List (State × Event × State)
  | _, [] => []
  | state, event :: events =>
      match machine.step state event with
      | none => []
      | some next => (state, event, next) :: machine.trace next events

/-- Some step set the flag, and no later step has set or cleared it. -/
def LastSet {State Event : Type*} (flag : State → Prop) (sets clears : State → Event → Prop)
    (steps : List (State × Event × State)) : Prop :=
  ∃ earlier setter later, steps = earlier ++ setter :: later ∧
    sets setter.1 setter.2.1 ∧ flag setter.2.2 ∧
    ∀ taken ∈ later, flag taken.1 ∧ ¬sets taken.1 taken.2.1 ∧ ¬clears taken.1 taken.2.1

section Runs

variable {State Event : Type*} {machine : Machine State Event}

@[simp]
theorem run_nil (state : State) : machine.run state [] = some state := rfl

theorem run_cons (state : State) (event : Event) (events : List Event) :
    machine.run state (event :: events) =
      (machine.step state event).bind fun next => machine.run next events := rfl

theorem run_cons_eq_some {state final : State} {event : Event} {events : List Event} :
    machine.run state (event :: events) = some final ↔
      ∃ next, machine.step state event = some next ∧ machine.run next events = some final := by
  rw [run_cons, Option.bind_eq_some_iff]

theorem run_append (state : State) (left right : List Event) :
    machine.run state (left ++ right) =
      (machine.run state left).bind fun next => machine.run next right := by
  induction left generalizing state with
  | nil => rfl
  | cons event left ih =>
      simp only [List.cons_append, run_cons]
      cases machine.step state event with
      | none => rfl
      | some next => exact ih next

theorem Reaches.refl (state : State) : machine.Reaches state state := ⟨[], rfl⟩

theorem Reaches.of_step {before after : State} {event : Event}
    (step : machine.step before event = some after) : machine.Reaches before after :=
  ⟨[event], by simp [run_cons, step]⟩

theorem Reaches.trans {before middle after : State} (first : machine.Reaches before middle)
    (second : machine.Reaches middle after) : machine.Reaches before after := by
  obtain ⟨left, left_run⟩ := first
  obtain ⟨right, right_run⟩ := second
  exact ⟨left ++ right, by rw [run_append, left_run]; exact right_run⟩

/-- An invariant of every allowed step holds at the end of every run of allowed steps. -/
theorem invariant_of_obeys {allowed : State → Event → Prop} {invariant : State → Prop}
    (preserved : ∀ state event next, invariant state → allowed state event →
      machine.step state event = some next → invariant next)
    {before after : State} {events : List Event} (initial : invariant before)
    (obeys : machine.Obeys allowed before events)
    (run : machine.run before events = some after) : invariant after := by
  induction events generalizing before with
  | nil =>
      obtain rfl : before = after := by simpa using run
      exact initial
  | cons event events ih =>
      obtain ⟨next, step, rest⟩ := run_cons_eq_some.mp run
      exact ih (preserved before event next initial obeys.1 step) (obeys.2 next step) rest

theorem obeys_cons {allowed : State → Event → Prop} {state next : State} {event : Event}
    {events : List Event} (first : allowed state event)
    (step : machine.step state event = some next)
    (rest : machine.Obeys allowed next events) : machine.Obeys allowed state (event :: events) := by
  refine ⟨first, fun other other_step => ?_⟩
  obtain rfl : next = other := Option.some.inj (step.symm.trans other_step)
  exact rest

/-- A condition on events alone is obeyed when every event of the run satisfies it. -/
theorem obeys_of_forall {allowed : Event → Prop} {events : List Event}
    (all : ∀ event ∈ events, allowed event) (state : State) :
    machine.Obeys (fun _ event => allowed event) state events := by
  induction events generalizing state with
  | nil => trivial
  | cons event events ih =>
      exact ⟨all event List.mem_cons_self,
        fun next _ => ih (fun other member => all other (List.mem_cons_of_mem _ member)) next⟩

/-- A condition that follows from an invariant of every step is obeyed by every run. -/
theorem obeys_of_invariant {allowed : State → Event → Prop} {invariant : State → Prop}
    (preserved : ∀ state event next, invariant state →
      machine.step state event = some next → invariant next)
    (sufficient : ∀ state event, invariant state → allowed state event)
    {state : State} (initial : invariant state) (events : List Event) :
    machine.Obeys allowed state events := by
  induction events generalizing state with
  | nil => trivial
  | cons event events ih =>
      exact ⟨sufficient state event initial,
        fun next step => ih (preserved state event next initial step)⟩

/-- An invariant of every step holds in every state a run reaches. -/
theorem invariant_of_reaches {invariant : State → Prop}
    (preserved : ∀ state event next, invariant state →
      machine.step state event = some next → invariant next)
    {before after : State} (initial : invariant before) (reach : machine.Reaches before after) :
    invariant after := by
  obtain ⟨events, run⟩ := reach
  exact invariant_of_obeys
    (fun state event next holds _ step => preserved state event next holds step)
    initial (obeys_of_forall (fun _ _ => trivial) before) run

theorem trace_cons {state next : State} {event : Event} (events : List Event)
    (step : machine.step state event = some next) :
    machine.trace state (event :: events) = (state, event, next) :: machine.trace next events := by
  rw [trace, step]

/-- Every step of a trace is taken in a state that a run reaches. -/
theorem reaches_of_mem_trace {start state next : State} {event : Event} {events : List Event}
    (taken : (state, event, next) ∈ machine.trace start events) :
    machine.Reaches start state ∧ machine.step state event = some next := by
  induction events generalizing start with
  | nil => simp [trace] at taken
  | cons first events ih =>
      cases step : machine.step start first with
      | none => simp [trace, step] at taken
      | some middle =>
          rw [trace_cons events step, List.mem_cons] at taken
          obtain here | later := taken
          · obtain ⟨rfl, rfl, rfl⟩ := by simpa using here
            exact ⟨.refl state, step⟩
          · obtain ⟨reach, last⟩ := ih later
            exact ⟨(Reaches.of_step step).trans reach, last⟩

/-- After each step of its trace a run goes on to its end. -/
theorem run_after_mem_trace {start state next final : State} {event : Event} {events : List Event}
    (run : machine.run start events = some final)
    (taken : (state, event, next) ∈ machine.trace start events) :
    machine.step state event = some next ∧ ∃ later, machine.run next later = some final ∧
      machine.trace next later ⊆ machine.trace start events := by
  induction events generalizing start with
  | nil => simp [trace] at taken
  | cons first events ih =>
      obtain ⟨middle, step, rest⟩ := run_cons_eq_some.mp run
      rw [trace_cons events step] at taken ⊢
      obtain here | after := List.mem_cons.mp taken
      · obtain ⟨rfl, rfl, rfl⟩ := by simpa using here
        exact ⟨step, events, rest, List.subset_cons_self _ _⟩
      · obtain ⟨last, later, ends, within⟩ := ih rest after
        exact ⟨last, later, ends, List.subset_cons_of_subset _ within⟩

/-- Every step of a trace takes one of the listed events. -/
theorem mem_events_of_mem_trace {start state next : State} {event : Event} {events : List Event}
    (taken : (state, event, next) ∈ machine.trace start events) : event ∈ events := by
  induction events generalizing start with
  | nil => simp [trace] at taken
  | cons first events ih =>
      cases step : machine.step start first with
      | none => simp [trace, step] at taken
      | some middle =>
          rw [trace_cons events step, List.mem_cons] at taken
          obtain here | later := taken
          · obtain ⟨-, rfl, -⟩ := by simpa using here
            exact List.mem_cons_self
          · exact List.mem_cons_of_mem _ (ih later)

/-- An invariant of the state and of the steps taken so far holds at the end of every run. -/
theorem invariant_of_trace {invariant : State → List (State × Event × State) → Prop}
    (preserved : ∀ state event next steps, invariant state steps →
      machine.step state event = some next → invariant next (steps ++ [(state, event, next)]))
    {before after : State} {events : List Event} {steps : List (State × Event × State)}
    (initial : invariant before steps) (run : machine.run before events = some after) :
    invariant after (steps ++ machine.trace before events) := by
  induction events generalizing before steps with
  | nil =>
      obtain rfl : before = after := by simpa using run
      simpa [trace] using initial
  | cons event events ih =>
      obtain ⟨next, step, rest⟩ := run_cons_eq_some.mp run
      have later := ih (preserved before event next steps initial step) rest
      rwa [trace_cons _ step, List.append_cons]

/-- What holds at the end of a run but not at its start has been set by a step of the run, and no
later step has set or cleared it. -/
theorem lastSet_of_run {flag : State → Prop} {sets clears : State → Event → Prop}
    (moves : ∀ state event next, machine.step state event = some next → flag next →
      sets state event ∨ flag state ∧ ¬clears state event)
    {before after : State} {events : List Event} (unset : ¬flag before)
    (run : machine.run before events = some after) (final : flag after) :
    LastSet flag sets clears (machine.trace before events) := by
  have preserved (state : State) (event : Event) (next : State)
      (steps : List (State × Event × State)) (known : flag state → LastSet flag sets clears steps)
      (step : machine.step state event = some next) :
      flag next → LastSet flag sets clears (steps ++ [(state, event, next)]) := by
    intro holds
    by_cases again : sets state event
    · exact ⟨steps, (state, event, next), [], rfl, again, holds, by simp⟩
    · obtain ⟨held, kept⟩ := (moves state event next step holds).resolve_left again
      obtain ⟨earlier, setter, later, split, first, shown, quiet⟩ := known held
      refine ⟨earlier, setter, later ++ [(state, event, next)], by simp [split], first, shown, ?_⟩
      intro taken member
      rcases List.mem_append.mp member with before_last | last
      · exact quiet taken before_last
      · obtain rfl := List.mem_singleton.mp last
        exact ⟨held, again, kept⟩
  have start : flag before → LastSet flag sets clears [] := fun held => absurd held unset
  exact invariant_of_trace preserved start run final

/-- A run of a whole is a run of each of its parts, which takes its own steps and is left alone by
the others. -/
theorem run_part {Part PartEvent : Type*} {part : Machine Part PartEvent} (view : State → Part)
    (own : State → Event → Option PartEvent)
    (moves : ∀ state event next, machine.step state event = some next →
      (own state event).elim (view next = view state) fun mine =>
        part.step (view state) mine = some (view next))
    {before after : State} {events : List Event} (run : machine.run before events = some after) :
    part.run (view before)
        ((machine.trace before events).filterMap fun taken => own taken.1 taken.2.1) =
      some (view after) := by
  induction events generalizing before with
  | nil =>
      obtain rfl : before = after := by simpa using run
      rfl
  | cons event events ih =>
      obtain ⟨next, step, rest⟩ := run_cons_eq_some.mp run
      have moved := moves before event next step
      have later := ih rest
      rw [trace_cons events step, List.filterMap_cons]
      cases mine : own before event with
      | none =>
          have same : view next = view before := by simpa [mine] using moved
          rw [← same]
          exact later
      | some taken =>
          exact run_cons_eq_some.mpr ⟨view next, by simpa [mine] using moved, later⟩

/-- When every step lowers a measure, each state reaches a blocked one. -/
theorem exists_blocked_of_measure (measure : State → Nat)
    (decreases : ∀ state event next, machine.step state event = some next →
      measure next < measure state) (state : State) :
    ∃ final, machine.Reaches state final ∧ machine.Blocked final := by
  induction size : measure state using Nat.strong_induction_on generalizing state with
  | _ bound ih =>
      by_cases blocked : machine.Blocked state
      · exact ⟨state, .refl state, blocked⟩
      · obtain ⟨event, enabled⟩ := not_forall.mp blocked
        obtain ⟨next, step⟩ := Option.ne_none_iff_exists'.mp enabled
        obtain ⟨final, reach, final_blocked⟩ :=
          ih (measure next) (size ▸ decreases state event next step) next rfl
        exact ⟨final, (Reaches.of_step step).trans reach, final_blocked⟩

/-- A measure that every step lowers bounds the length of every run. -/
theorem length_le_of_measure (measure : State → Nat)
    (decreases : ∀ state event next, machine.step state event = some next →
      measure next < measure state) {state final : State} {events : List Event}
    (run : machine.run state events = some final) :
    events.length + measure final ≤ measure state := by
  induction events generalizing state with
  | nil =>
      obtain rfl : state = final := by simpa using run
      simp
  | cons event events ih =>
      obtain ⟨next, step, rest⟩ := run_cons_eq_some.mp run
      have later := ih rest
      have lowered := decreases state event next step
      simp only [List.length_cons]
      omega

end Runs

end Machine

/-! ## Totals over a family of parties -/

/-- Replacing one member of a finite family changes a total by that member's share only. -/
theorem sum_update_add {Party Value Amount : Type*} [Fintype Party] [DecidableEq Party]
    [AddCommMonoid Amount] (family : Party → Value) (party : Party) (value : Value)
    (share : Value → Amount) :
    (∑ other, share (Function.update family party value other)) + share (family party) =
      (∑ other, share (family other)) + share value := by
  have split (members : Party → Value) :
      ∑ other, share (members other) =
        share (members party) + ∑ other ∈ Finset.univ.erase party, share (members other) :=
    (Finset.add_sum_erase Finset.univ (fun other => share (members other))
      (Finset.mem_univ party)).symm
  have others :
      ∑ other ∈ Finset.univ.erase party, share (Function.update family party value other) =
        ∑ other ∈ Finset.univ.erase party, share (family other) := by
    apply Finset.sum_congr rfl
    intro other member
    rw [Function.update_of_ne (Finset.ne_of_mem_erase member)]
  rw [split (Function.update family party value), split family, others, Function.update_self]
  abel

end Etle
