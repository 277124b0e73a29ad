import Mathlib.Tactic.Common

/-!
# Fallible stateful computations

`EStateM` keeps the state a failing computation has reached, which is what a program leaves on disk
after an error.  The rules here take a sequence apart at a known outcome, run a computation on one
component of a larger state, and carry a property of the state through both outcomes.  A list of
operations has, besides its outcome, the states it can be stopped in.
-/

namespace Etle

/-- Where a state keeps one of its parts. -/
structure Lens (State Part : Type*) where
  get : State → Part
  put : Part → State → State
  get_put : ∀ part state, get (put part state) = part
  put_get : ∀ state, put (get state) state = state
  put_put : ∀ first second state, put second (put first state) = put second state

attribute [simp] Lens.get_put Lens.put_get Lens.put_put

end Etle

namespace EStateM

open Etle (Lens)

variable {ε δ σ τ α β : Type}

/-- The state a computation ends in, successful or not. -/
def Result.final : Result ε σ α → σ
  | .ok _ state => state
  | .error _ state => state

@[simp]
theorem Result.final_ok (value : α) (state : σ) :
    (Result.ok value state : Result ε σ α).final = state := rfl

@[simp]
theorem Result.final_error (failure : ε) (state : σ) :
    (Result.error failure state : Result ε σ α).final = state := rfl

@[simp]
theorem run_throw_eq (failure : ε) (state : σ) :
    (MonadExcept.throw failure : EStateM ε σ α).run state = .error failure state := rfl

theorem run_get_bind (body : σ → EStateM ε σ α) (state : σ) :
    (get >>= body).run state = (body state).run state := rfl

theorem run_tryCatch_eq (body : EStateM ε σ α) (handler : ε → EStateM ε σ α) (state : σ) :
    (tryCatch body handler).run state =
      match body.run state with
      | .ok value next => .ok value next
      | .error failure next => (handler failure).run next := by
  have unfolded : (tryCatch body handler).run state = EStateM.tryCatch body handler state := rfl
  rw [unfolded, EStateM.tryCatch, run]
  cases body state <;> rfl

theorem run_bind_eq_ok {first : EStateM ε σ α} {second : α → EStateM ε σ β} {before after : σ}
    {value : β} :
    (first >>= second).run before = .ok value after ↔
      ∃ middle state, first.run before = .ok middle state ∧
        (second middle).run state = .ok value after := by
  rw [run_bind]
  cases first.run before <;> simp

theorem run_bind_eq_error {first : EStateM ε σ α} {second : α → EStateM ε σ β}
    {before after : σ} {failure : ε} :
    (first >>= second).run before = .error failure after ↔
      first.run before = .error failure after ∨
        ∃ middle state, first.run before = .ok middle state ∧
          (second middle).run state = .error failure after := by
  rw [run_bind]
  cases first.run before <;> simp

/-- Mapping the value of a computation leaves the state it ends in. -/
theorem final_bind_pure (first : EStateM ε σ α) (map : α → β) (state : σ) :
    ((first >>= fun value => Pure.pure (map value)).run state).final =
      (first.run state).final := by
  rw [run_bind]
  cases first.run state <;> rfl

/-- Run a computation on one component of the state, translating its errors. -/
def zoom (get : σ → τ) (set : τ → σ → σ) (embed : ε → δ) (inner : EStateM ε τ α) :
    EStateM δ σ α := fun state =>
  match inner.run (get state) with
  | .ok value part => .ok value (set part state)
  | .error failure part => .error (embed failure) (set part state)

/-- Return a value that was computed without the state, translating its errors. -/
def liftExcept (embed : ε → δ) (outcome : Except ε α) : EStateM δ σ α := fun state =>
  match outcome with
  | .ok value => .ok value state
  | .error failure => .error (embed failure) state

theorem run_zoom (get : σ → τ) (set : τ → σ → σ) (embed : ε → δ) (inner : EStateM ε τ α)
    (state : σ) :
    (zoom get set embed inner).run state =
      match inner.run (get state) with
      | .ok value part => .ok value (set part state)
      | .error failure part => .error (embed failure) (set part state) := rfl

theorem run_zoom_eq_ok {get : σ → τ} {set : τ → σ → σ} {embed : ε → δ} {inner : EStateM ε τ α}
    {before after : σ} {value : α} :
    (zoom get set embed inner).run before = .ok value after ↔
      ∃ part, inner.run (get before) = .ok value part ∧ after = set part before := by
  simp only [zoom, run]
  split <;> rename_i outcome <;> simp_all [eq_comm]

theorem run_zoom_eq_error {get : σ → τ} {set : τ → σ → σ} {embed : ε → δ}
    {inner : EStateM ε τ α} {before after : σ} {failure : δ} :
    (zoom get set embed inner).run before = .error failure after ↔
      ∃ cause part, inner.run (get before) = .error cause part ∧
        failure = embed cause ∧ after = set part before := by
  simp only [zoom, run]
  split <;> rename_i outcome <;> simp_all [eq_comm]

@[simp]
theorem run_liftExcept_ok (embed : ε → δ) (value : α) (state : σ) :
    (liftExcept embed (.ok value) : EStateM δ σ α).run state = .ok value state := rfl

@[simp]
theorem run_liftExcept_error (embed : ε → δ) (failure : ε) (state : σ) :
    (liftExcept embed (.error failure) : EStateM δ σ α).run state =
      .error (embed failure) state := rfl

theorem run_liftExcept_eq_ok {embed : ε → δ} {outcome : Except ε α} {before after : σ}
    {value : α} :
    (liftExcept embed outcome : EStateM δ σ α).run before = .ok value after ↔
      outcome = .ok value ∧ after = before := by
  cases outcome <;> simp [eq_comm]

/-- Whatever the outcome, a property of the state before still holds of the state after. -/
def Keeps (property : σ → Prop) (computation : EStateM ε σ α) : Prop :=
  ∀ state, property state → property (computation.run state).final

namespace Keeps

variable {property : σ → Prop}

theorem pure (value : α) : Keeps property (Pure.pure value : EStateM ε σ α) :=
  fun _ holds => holds

theorem throw (failure : ε) : Keeps property (MonadExcept.throw failure : EStateM ε σ α) :=
  fun _ holds => holds

theorem bind {first : EStateM ε σ α} {second : α → EStateM ε σ β}
    (first_keeps : Keeps property first) (second_keeps : ∀ value, Keeps property (second value)) :
    Keeps property (first >>= second) := by
  intro state holds
  have middle := first_keeps state holds
  rw [run_bind]
  cases outcome : first.run state with
  | error failure next => simpa [outcome] using middle
  | ok value next => exact second_keeps value next (by simpa [outcome] using middle)

/-- A sequence that breaks a property its first part keeps has got past this part. -/
theorem escape {first : EStateM ε σ α} {second : α → EStateM ε σ β}
    (first_keeps : Keeps property first) {state : σ} (holds : property state)
    (broken : ¬property ((first >>= second).run state).final) :
    ∃ value middle, first.run state = .ok value middle ∧ property middle ∧
      ((first >>= second).run state).final = ((second value).run middle).final := by
  have reached := first_keeps state holds
  rw [run_bind] at broken ⊢
  cases outcome : first.run state with
  | error failure next =>
      rw [outcome] at reached
      exact absurd reached (by simpa [outcome] using broken)
  | ok value next => exact ⟨value, next, rfl, by simpa [outcome] using reached, rfl⟩

theorem liftExcept (embed : ε → δ) (outcome : Except ε α) :
    Keeps property (EStateM.liftExcept embed outcome : EStateM δ σ α) := by
  intro state holds
  cases outcome <;> exact holds

/-- What follows a look at the state keeps the property whatever has been seen. -/
theorem get_bind {body : σ → EStateM ε σ α} (keeps : ∀ seen, Keeps property (body seen)) :
    Keeps property (get >>= body) :=
  fun state holds => keeps state state holds

theorem modify {change : σ → σ} (kept : ∀ state, property state → property (change state)) :
    Keeps property (modify change : EStateM ε σ Unit) :=
  kept

theorem of_ok {computation : EStateM ε σ α} (keeps : Keeps property computation)
    {before after : σ} {value : α} (holds : property before)
    (ran : computation.run before = .ok value after) : property after := by
  have kept := keeps before holds
  rwa [ran] at kept

theorem of_error {computation : EStateM ε σ α} (keeps : Keeps property computation)
    {before after : σ} {failure : ε} (holds : property before)
    (ran : computation.run before = .error failure after) : property after := by
  have kept := keeps before holds
  rwa [ran] at kept

/-- What is kept of a component is kept by a computation on it. -/
theorem zoom {get : σ → τ} {set : τ → σ → σ} {embed : ε → δ} {inner : EStateM ε τ α}
    {kept : τ → Prop} (keeps : Keeps kept inner) (put : ∀ part state, get (set part state) = part) :
    Keeps (fun state => kept (get state)) (EStateM.zoom get set embed inner) := by
  intro state holds
  have reached := keeps (get state) holds
  simp only [EStateM.zoom, EStateM.run] at reached ⊢
  split <;> rename_i outcome <;> simpa [outcome, put] using reached

end Keeps

/-- Whatever the state before and the outcome, a property holds of the state after. -/
def Establishes (property : σ → Prop) (computation : EStateM ε σ α) : Prop :=
  ∀ state, property (computation.run state).final

namespace Establishes

variable {property : σ → Prop}

/-- What a first part establishes and a second part keeps is established. -/
theorem bind {first : EStateM ε σ α} {second : α → EStateM ε σ β}
    (established : Establishes property first) (kept : ∀ value, Keeps property (second value)) :
    Establishes property (first >>= second) := by
  intro state
  have middle := established state
  rw [run_bind]
  cases outcome : first.run state with
  | error failure next => simpa [outcome] using middle
  | ok value next => exact kept value next (by simpa [outcome] using middle)

/-- What every second part establishes is established when the first part cannot fail. -/
theorem after {first : EStateM ε σ α} {second : α → EStateM ε σ β}
    (succeeds : ∀ state, ∃ value next, first.run state = .ok value next)
    (established : ∀ value, Establishes property (second value)) :
    Establishes property (first >>= second) := by
  intro state
  obtain ⟨value, next, outcome⟩ := succeeds state
  rw [run_bind, outcome]
  exact established value next

/-- What is established of a component is established by a computation on it. -/
theorem zoom {get : σ → τ} {set : τ → σ → σ} {embed : ε → δ} {inner : EStateM ε τ α}
    {wanted : τ → Prop} (establishes : Establishes wanted inner)
    (put : ∀ part state, get (set part state) = part) :
    Establishes (fun state => wanted (get state)) (EStateM.zoom get set embed inner) := by
  intro state
  have reached := establishes (get state)
  simp only [EStateM.zoom, EStateM.run] at reached ⊢
  split <;> rename_i outcome <;> simpa [outcome, put] using reached

end Establishes

/-- Either a computation fails where a property still holds, or it ends as wanted. -/
def FailsOr (property : σ → Prop) (wanted : Result ε σ α → Prop) (computation : EStateM ε σ α) :
    Prop :=
  ∀ state, property state →
    (∃ failure left, computation.run state = .error failure left ∧ property left) ∨
      wanted (computation.run state)

/-- A sequence whose first part keeps the property fails early or ends as its second part does. -/
theorem Keeps.failsOr {property : σ → Prop} {wanted : Result ε σ β → Prop}
    {first : EStateM ε σ α} {second : α → EStateM ε σ β} (first_keeps : Keeps property first)
    (second_ends : ∀ before value middle, first.run before = .ok value middle →
      FailsOr property wanted (second value)) :
    FailsOr property wanted (first >>= second) := by
  intro state holds
  have reached := first_keeps state holds
  rw [run_bind]
  cases outcome : first.run state with
  | error failure left => exact .inl ⟨failure, left, rfl, by simpa [outcome] using reached⟩
  | ok value middle =>
      exact second_ends state value middle outcome middle (by simpa [outcome] using reached)

/-! ## Stopping between two operations -/

/-- Take operations one after another, up to the first that fails. -/
def inOrder : List (EStateM ε σ Unit) → EStateM ε σ Unit
  | [] => Pure.pure ()
  | operation :: rest => do
      operation
      inOrder rest

/-- The states that operations taken in order can be stopped in: before each one, and at the end. -/
def stops : List (EStateM ε σ Unit) → σ → List σ
  | [], state => [state]
  | operation :: rest, state =>
      state :: match operation.run state with
        | .ok _ next => stops rest next
        | .error _ next => [next]

theorem inOrder_append (left right : List (EStateM ε σ Unit)) :
    inOrder (left ++ right) = (do inOrder left; inOrder right) := by
  induction left with
  | nil => rfl
  | cons operation left ih => simp [inOrder, ih]

theorem self_mem_stops (operations : List (EStateM ε σ Unit)) (state : σ) :
    state ∈ stops operations state := by
  cases operations <;> simp [stops]

/-- What every operation keeps holds wherever they are stopped. -/
theorem holds_of_mem_stops {property : σ → Prop} {operations : List (EStateM ε σ Unit)}
    (keeps : ∀ operation ∈ operations, Keeps property operation) {before left : σ}
    (holds : property before) (stopped : left ∈ stops operations before) : property left := by
  induction operations generalizing before with
  | nil =>
      obtain rfl : left = before := by simpa [stops] using stopped
      exact holds
  | cons operation rest ih =>
      have next_holds := keeps operation List.mem_cons_self before holds
      have others : ∀ other ∈ rest, Keeps property other := fun other member =>
        keeps other (List.mem_cons_of_mem _ member)
      rw [stops, List.mem_cons] at stopped
      obtain rfl | stopped := stopped
      · exact holds
      · cases outcome : operation.run before with
        | error failure next =>
            obtain rfl : left = next := by simpa [outcome] using stopped
            simpa [outcome] using next_holds
        | ok value next =>
            exact ih others (by simpa [outcome] using next_holds)
              (by simpa [outcome] using stopped)

/-- Operations can be stopped where they end. -/
theorem final_mem_stops (operations : List (EStateM ε σ Unit)) (state : σ) :
    ((inOrder operations).run state).final ∈ stops operations state := by
  induction operations generalizing state with
  | nil => simp [inOrder, stops]
  | cons operation rest ih =>
      rw [inOrder, run_bind, stops]
      cases operation.run state with
      | error failure next => simp
      | ok value next => exact List.mem_cons_of_mem _ (ih next)

/-- Operations can be stopped between a part that succeeds and the rest. -/
theorem mem_stops_append {left : List (EStateM ε σ Unit)} {before after : σ} {value : Unit}
    (taken : (inOrder left).run before = .ok value after) (right : List (EStateM ε σ Unit)) :
    after ∈ stops (left ++ right) before := by
  induction left generalizing before with
  | nil =>
      obtain rfl : before = after := by simpa [inOrder] using taken
      exact self_mem_stops right before
  | cons operation left ih =>
      obtain ⟨_, next, first, rest⟩ := run_bind_eq_ok.mp taken
      simp only [List.cons_append, stops, first]
      exact List.mem_cons_of_mem _ (ih rest)

/-! ## Refinement -/

/-- Where the second computation acts on what the first one's states show: the first one either does
the same, or fails and shows what it did before. -/
def Refines (shows : σ → τ → Prop) (concrete : EStateM ε σ Unit) (abstract : EStateM δ τ Unit) :
    Prop :=
  ∀ before shown, shows before shown →
    (∃ after next, concrete.run before = .ok () after ∧ abstract.run shown = .ok () next ∧
      shows after next) ∨
    ∃ failure left, concrete.run before = .error failure left ∧ shows left shown

variable {shows : σ → τ → Prop}

/-- What the second computation keeps of the states shown, the first one keeps showing. -/
theorem Refines.keeps {concrete : EStateM ε σ Unit} {abstract : EStateM δ τ Unit}
    {property : τ → Prop} (refines : Refines shows concrete abstract)
    (keeps : Keeps property abstract) :
    Keeps (fun state => ∃ shown, shows state shown ∧ property shown) concrete := by
  rintro state ⟨shown, shows_state, holds⟩
  obtain ⟨after, next, ran, shown_ran, shows_next⟩ | ⟨failure, left, ran, still⟩ :=
    refines state shown shows_state
  · rw [ran]
    exact ⟨next, shows_next, keeps.of_ok holds shown_ran⟩
  · rw [ran]
    exact ⟨shown, still, holds⟩

/-- Refined operations taken in order: a success shows what the abstract operations do, and a
failure shows a state that these can be stopped in. -/
theorem refines_inOrder {operations : List (EStateM ε σ Unit × EStateM δ τ Unit)}
    (refines : ∀ operation ∈ operations, Refines shows operation.1 operation.2)
    {before : σ} {shown : τ} (start : shows before shown) :
    (∃ after next, (inOrder (operations.map Prod.fst)).run before = .ok () after ∧
      (inOrder (operations.map Prod.snd)).run shown = .ok () next ∧ shows after next) ∨
    ∃ failure left, (inOrder (operations.map Prod.fst)).run before = .error failure left ∧
      ∃ stop ∈ stops (operations.map Prod.snd) shown, shows left stop := by
  induction operations generalizing before shown with
  | nil => exact .inl ⟨before, shown, rfl, rfl, start⟩
  | cons operation rest ih =>
      have later : ∀ other ∈ rest, Refines shows other.1 other.2 := fun other member =>
        refines other (List.mem_cons_of_mem _ member)
      simp only [List.map_cons, inOrder, run_bind, stops]
      rcases refines operation List.mem_cons_self before shown start with
        ⟨after, next, ran, shown_ran, shows_next⟩ | ⟨failure, left, ran, kept⟩
      · rw [ran, shown_ran]
        rcases ih later shows_next with done | ⟨failure, left, failed, stop, stopped, shows_stop⟩
        · exact .inl done
        · exact .inr ⟨failure, left, failed, stop, List.mem_cons_of_mem _ stopped, shows_stop⟩
      · rw [ran]
        exact .inr ⟨failure, left, rfl, shown, List.mem_cons_self, kept⟩

/-! ## Acting on one part of the state -/

/-- The result on a state that differs outside a part, which is taken from the given one. -/
def Result.onto (lens : Lens σ τ) (other : σ) : Result ε σ α → Result ε σ α
  | .ok value next => .ok value (lens.put (lens.get next) other)
  | .error failure next => .error failure (lens.put (lens.get next) other)

/-- As long as one part of the state is as it should be, a computation leaves it so, and it reads
and writes this part only: on states with the same part the outcome is the same, and the rest of
each of them stays. -/
structure ActsOn (lens : Lens σ τ) (proper : τ → Prop) (computation : EStateM ε σ α) : Prop where
  keeps : ∀ state, proper (lens.get state) → proper (lens.get (computation.run state).final)
  agrees : ∀ state other, proper (lens.get state) → lens.get other = lens.get state →
    computation.run other = (computation.run state).onto lens other

namespace ActsOn

variable {lens : Lens σ τ} {proper : τ → Prop}

theorem pure (value : α) : ActsOn lens proper (Pure.pure value : EStateM ε σ α) := by
  refine ⟨fun _ fits => fits, fun state other _ same => ?_⟩
  simp [run_pure, Result.onto, ← same]

theorem throw (failure : ε) : ActsOn lens proper (MonadExcept.throw failure : EStateM ε σ α) := by
  refine ⟨fun _ fits => fits, fun state other _ same => ?_⟩
  simp [Result.onto, ← same]

/-- In a sequence, what follows only matters for the values that the first part returns. -/
theorem bind_of_returns {first : EStateM ε σ α} {second : α → EStateM ε σ β}
    (first_acts : ActsOn lens proper first)
    (second_acts : ∀ value, (∃ state next, proper (lens.get state) ∧
      first.run state = .ok value next) → ActsOn lens proper (second value)) :
    ActsOn lens proper (first >>= second) := by
  constructor
  · intro state fits
    have reached := first_acts.keeps state fits
    rw [run_bind]
    cases outcome : first.run state with
    | error failure next => simpa [outcome] using reached
    | ok value next =>
        exact (second_acts value ⟨state, next, fits, outcome⟩).keeps next
          (by simpa [outcome] using reached)
  · intro state other fits same
    have reached := first_acts.keeps state fits
    rw [run_bind, run_bind, first_acts.agrees state other fits same]
    cases outcome : first.run state with
    | error failure next => rfl
    | ok value next =>
        have fits_next : proper (lens.get next) := by simpa [outcome] using reached
        have agreed := (second_acts value ⟨state, next, fits, outcome⟩).agrees next
          (lens.put (lens.get next) other) fits_next (lens.get_put _ _)
        simp only [Result.onto] at agreed ⊢
        rw [agreed]
        cases (second value).run next <;> simp

theorem bind {first : EStateM ε σ α} {second : α → EStateM ε σ β}
    (first_acts : ActsOn lens proper first)
    (second_acts : ∀ value, ActsOn lens proper (second value)) :
    ActsOn lens proper (first >>= second) :=
  bind_of_returns first_acts fun value _ => second_acts value

/-- Reading the state only for the sake of its part. -/
theorem get_bind (view : τ → EStateM ε σ α) {body : σ → EStateM ε σ α}
    (same : ∀ state, body state = view (lens.get state))
    (acts : ∀ part, proper part → ActsOn lens proper (view part)) :
    ActsOn lens proper (get >>= body) := by
  constructor
  · intro state fits
    rw [run_get_bind, same]
    exact (acts _ fits).keeps state fits
  · intro state other fits equal
    rw [run_get_bind, run_get_bind, same, same, equal]
    exact (acts _ fits).agrees state other fits equal

theorem modify {change : σ → σ} {moved : τ → τ}
    (acts : ∀ state, change state = lens.put (moved (lens.get state)) state)
    (keeps : ∀ part, proper part → proper (moved part)) :
    ActsOn lens proper (modify change : EStateM ε σ Unit) := by
  refine ⟨fun state fits => ?_, fun state other _ same => ?_⟩
  · simpa [acts] using keeps _ fits
  · simp [acts, Result.onto, same]

theorem liftExcept (embed : δ → ε) (outcome : Except δ α) :
    ActsOn lens proper (EStateM.liftExcept embed outcome) := by
  cases outcome with
  | ok value => exact pure value
  | error failure => exact throw (embed failure)

variable {computation : EStateM ε σ α} {state other next : σ}

theorem run_ok (acts : ActsOn lens proper computation) (fits : proper (lens.get state))
    (same : lens.get other = lens.get state) {value : α}
    (ran : computation.run state = .ok value next) :
    computation.run other = .ok value (lens.put (lens.get next) other) := by
  rw [acts.agrees state other fits same, ran]
  rfl

theorem run_error (acts : ActsOn lens proper computation) (fits : proper (lens.get state))
    (same : lens.get other = lens.get state) {failure : ε}
    (ran : computation.run state = .error failure next) :
    computation.run other = .error failure (lens.put (lens.get next) other) := by
  rw [acts.agrees state other fits same, ran]
  rfl

/-- Only the part changes. -/
theorem final_eq (acts : ActsOn lens proper computation) (fits : proper (lens.get state)) :
    (computation.run state).final = lens.put (lens.get (computation.run state).final) state := by
  have agreed := acts.agrees state state fits rfl
  cases outcome : computation.run state with
  | ok value next =>
      rw [outcome] at agreed
      simpa [Result.onto] using agreed
  | error failure next =>
      rw [outcome] at agreed
      simpa [Result.onto] using agreed

end ActsOn

end EStateM
