import Etle.Foundations.Machine
import Etle.Foundations.Outcome

/-!
# Machines over a shared store

Machines that run side by side take turns on one store.  A machine is confined to a key when it
neither reads nor writes under any other one.  Machines that are confined to different keys do not
notice each other: an interleaving of their steps is possible exactly when each of them can take its
own steps alone, and it leaves under each key what its machine leaves there alone.
-/

namespace Etle

section Confined

variable {State Event Key Value : Type*} [DecidableEq Key]

/-- While it works properly, a machine reads and writes the store under one key only. -/
structure Machine.ConfinedTo (machine : Machine State Event)
    (lens : Lens State (Key → Value)) (key : Key) (proper : State → Prop) : Prop where
  keeps : ∀ state event next, proper state → machine.step state event = some next → proper next
  blind : ∀ store state, proper state → proper (lens.put store state)
  others : ∀ state event next, proper state → machine.step state event = some next →
    ∀ other, other ≠ key → lens.get next other = lens.get state other
  acts : ∀ state event next store, proper state → store key = lens.get state key →
    machine.step state event = some next →
      machine.step (lens.put store state) event =
        some (lens.put (Function.update store key (lens.get next key)) next)

theorem Machine.ConfinedTo.proper_of_run {machine : Machine State Event}
    {lens : Lens State (Key → Value)} {key : Key} {proper : State → Prop}
    (confined : machine.ConfinedTo lens key proper) {before after : State} {events : List Event}
    (start : proper before) (run : machine.run before events = some after) : proper after :=
  Machine.invariant_of_reaches confined.keeps start ⟨events, run⟩

/-- A run leaves what is under the other keys as it is. -/
theorem Machine.ConfinedTo.others_of_run {machine : Machine State Event}
    {lens : Lens State (Key → Value)} {key : Key} {proper : State → Prop}
    (confined : machine.ConfinedTo lens key proper) {before after : State} {events : List Event}
    (start : proper before) (run : machine.run before events = some after) {other : Key}
    (different : other ≠ key) : lens.get after other = lens.get before other := by
  induction events generalizing before with
  | nil =>
      obtain rfl : before = after := by simpa using run
      rfl
  | cons event events ih =>
      obtain ⟨next, step, rest⟩ := Machine.run_cons_eq_some.mp run
      rw [ih (confined.keeps before event next start step) rest]
      exact confined.others before event next start step other different

end Confined

section SideBySide

variable {ι : Type*} {State Event : ι → Type*} {Key Value : Type*}

/-- Machines side by side, each with a state of its own in which the store is disregarded. -/
structure SideBySide (State : ι → Type*) (Key Value : Type*) where
  store : Key → Value
  states : ∀ i, State i

variable [DecidableEq ι]

/-- One of the machines takes a step on the shared store. -/
def interleaved (machines : ∀ i, Machine (State i) (Event i))
    (lens : ∀ i, Lens (State i) (Key → Value)) :
    Machine (SideBySide State Key Value) (Σ i, Event i) where
  step shared event :=
    ((machines event.1).step ((lens event.1).put shared.store (shared.states event.1))
      event.2).map fun next =>
        { store := (lens event.1).get next
          states := Function.update shared.states event.1 next }

/-- The events of one machine, in their order. -/
def eventsOf (i : ι) (events : List (Σ i, Event i)) : List (Event i) :=
  events.filterMap fun event => if same : event.1 = i then some (same ▸ event.2) else none

@[simp]
theorem eventsOf_nil (i : ι) : eventsOf i ([] : List (Σ i, Event i)) = [] := rfl

@[simp]
theorem eventsOf_cons_self (i : ι) (event : Event i) (events : List (Σ i, Event i)) :
    eventsOf i (⟨i, event⟩ :: events) = event :: eventsOf i events := by
  simp [eventsOf]

theorem eventsOf_cons_of_ne {i j : ι} (different : j ≠ i) (event : Event j)
    (events : List (Σ i, Event i)) : eventsOf i (⟨j, event⟩ :: events) = eventsOf i events := by
  simp [eventsOf, different]

/-- A state of a machine alone is that of the machine beside the others, but for what the store
holds under the keys of the others. -/
structure StandsAs (lens : ∀ i, Lens (State i) (Key → Value)) (keys : ι → Key) (i : ι)
    (alone : State i) (shared : SideBySide State Key Value) : Prop where
  store : (lens i).get alone (keys i) = shared.store (keys i)
  state : ∀ store, (lens i).put store alone = (lens i).put store (shared.states i)

variable [DecidableEq Key] {machines : ∀ i, Machine (State i) (Event i)}
  {lens : ∀ i, Lens (State i) (Key → Value)} {keys : ι → Key} {proper : ∀ i, State i → Prop}
  {shared next : SideBySide State Key Value} {alone : ∀ i, State i}

/-- A step of one machine beside the others is a step of the machine alone, and the others do not
notice it. -/
theorem step_of_interleaved
    (confined : ∀ i, (machines i).ConfinedTo (lens i) (keys i) (proper i))
    (apart : Function.Injective keys) (works : ∀ i, proper i (alone i))
    (stands : ∀ i, StandsAs lens keys i (alone i) shared) {i : ι} {event : Event i}
    (step : (interleaved machines lens).step shared ⟨i, event⟩ = some next) :
    ∃ after, (machines i).step (alone i) event = some after ∧ proper i after ∧
      (∀ j, StandsAs lens keys j (Function.update alone i after j) next) ∧
      ∀ key, key ≠ keys i → next.store key = shared.store key := by
  obtain ⟨moved, taken, rfl⟩ := Option.map_eq_some_iff.mp step
  dsimp only at taken
  rw [← (stands i).state shared.store] at taken
  have fits := (confined i).blind shared.store (alone i) (works i)
  have others := (confined i).others _ event moved fits taken
  have mine := (confined i).acts _ event moved ((lens i).get (alone i)) fits
    (by rw [Lens.get_put, (stands i).store]) taken
  rw [Lens.put_put, Lens.put_get] at mine
  refine ⟨_, mine, (confined i).keeps _ _ _ (works i) mine, fun j => ?_, fun key different => ?_⟩
  · by_cases same : j = i
    · subst same
      refine ⟨?_, fun store => ?_⟩ <;> simp
    · have elsewhere : keys j ≠ keys i := fun equal => same (apart equal)
      refine ⟨?_, fun store => ?_⟩
      · rw [Function.update_of_ne same, (stands j).store]
        simp [others (keys j) elsewhere]
      · simpa [Function.update_of_ne same] using (stands j).state store
  · simpa using others key different

/-- A step of a machine alone can be taken beside the others. -/
theorem interleaved_of_step
    (confined : ∀ i, (machines i).ConfinedTo (lens i) (keys i) (proper i))
    (works : ∀ i, proper i (alone i)) (stands : ∀ i, StandsAs lens keys i (alone i) shared)
    {i : ι} {event : Event i} {after : State i}
    (step : (machines i).step (alone i) event = some after) :
    ∃ next, (interleaved machines lens).step shared ⟨i, event⟩ = some next := by
  have taken := (confined i).acts _ event after shared.store (works i) (stands i).store.symm step
  rw [(stands i).state shared.store] at taken
  exact ⟨_, Option.map_eq_some_iff.mpr ⟨_, taken, rfl⟩⟩

/-- Each machine of an interleaving runs as it does alone, and what is under no key of theirs stays
as it is. -/
theorem run_of_interleaved
    (confined : ∀ i, (machines i).ConfinedTo (lens i) (keys i) (proper i))
    (apart : Function.Injective keys) (works : ∀ i, proper i (alone i))
    (stands : ∀ i, StandsAs lens keys i (alone i) shared) {events : List (Σ i, Event i)}
    (run : (interleaved machines lens).run shared events = some next) :
    (∀ i, ∃ after, (machines i).run (alone i) (eventsOf i events) = some after ∧
      StandsAs lens keys i after next) ∧
    ∀ key, (∀ i, key ≠ keys i) → next.store key = shared.store key := by
  induction events generalizing shared alone with
  | nil =>
      obtain rfl : shared = next := by simpa using run
      exact ⟨fun i => ⟨alone i, rfl, stands i⟩, fun _ _ => rfl⟩
  | cons event events ih =>
      obtain ⟨i, event⟩ := event
      obtain ⟨middle, step, rest⟩ := Machine.run_cons_eq_some.mp run
      obtain ⟨moved, taken, fits, stands_middle, quiet⟩ :=
        step_of_interleaved confined apart works stands step
      have works_middle : ∀ j, proper j (Function.update alone i moved j) := by
        intro j
        by_cases same : j = i
        · subst same
          simpa using fits
        · simpa [Function.update_of_ne same] using works j
      obtain ⟨runs, untouched⟩ := ih works_middle stands_middle rest
      refine ⟨fun j => ?_, fun key free => by rw [untouched key free, quiet key (free i)]⟩
      obtain ⟨after, ran, ends⟩ := runs j
      refine ⟨after, ?_, ends⟩
      by_cases same : j = i
      · subst same
        rw [eventsOf_cons_self, Machine.run_cons, taken]
        simpa using ran
      · rw [eventsOf_cons_of_ne (Ne.symm same)]
        simpa [Function.update_of_ne same] using ran

/-- An interleaving is possible exactly when each machine can take its own steps alone. -/
theorem exists_run_interleaved_iff
    (confined : ∀ i, (machines i).ConfinedTo (lens i) (keys i) (proper i))
    (apart : Function.Injective keys) (works : ∀ i, proper i (alone i))
    (stands : ∀ i, StandsAs lens keys i (alone i) shared) (events : List (Σ i, Event i)) :
    (∃ next, (interleaved machines lens).run shared events = some next) ↔
      ∀ i, ∃ after, (machines i).run (alone i) (eventsOf i events) = some after := by
  constructor
  · rintro ⟨next, run⟩ i
    obtain ⟨after, ran, -⟩ := (run_of_interleaved confined apart works stands run).1 i
    exact ⟨after, ran⟩
  · intro runs
    induction events generalizing shared alone with
    | nil => exact ⟨shared, rfl⟩
    | cons event events ih =>
        obtain ⟨i, event⟩ := event
        obtain ⟨last, ran⟩ := runs i
        rw [eventsOf_cons_self] at ran
        obtain ⟨moved, taken, rest⟩ := Machine.run_cons_eq_some.mp ran
        obtain ⟨middle, step⟩ := interleaved_of_step confined works stands taken
        obtain ⟨same_moved, taken_again, fits, stands_middle, -⟩ :=
          step_of_interleaved confined apart works stands step
        obtain rfl : same_moved = moved := Option.some.inj (taken_again.symm.trans taken)
        have works_middle : ∀ j, proper j (Function.update alone i same_moved j) := by
          intro j
          by_cases same : j = i
          · subst same
            simpa using fits
          · simpa [Function.update_of_ne same] using works j
        obtain ⟨next, run⟩ := ih works_middle stands_middle fun j => by
          by_cases same : j = i
          · subst same
            exact ⟨last, by simpa using rest⟩
          · obtain ⟨other, other_ran⟩ := runs j
            rw [eventsOf_cons_of_ne (Ne.symm same)] at other_ran
            exact ⟨other, by simpa [Function.update_of_ne same] using other_ran⟩
        exact ⟨next, Machine.run_cons_eq_some.mpr ⟨middle, step, run⟩⟩

end SideBySide

end Etle
