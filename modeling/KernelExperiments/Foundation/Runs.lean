import Mathlib.Data.List.Basic

/-!
# Runs of a step function

A system is a step function on states and events. A run folds the step over a list of events, and
a property of a run is either a property of its last state or a property of every step it takes.
`Along step property state events` is the second kind: it holds when `property` holds of each event
in the state in which the event is taken.

`run_induction` carries an invariant through a run under a condition on its steps, and
`along_of_invariant` turns an invariant into a property of every step; `along_iff_of_invariant` does
so for properties that are equivalent under the invariant. `outputs_conservation` adds
up what the steps of a run take in and give out. `run_simulation` is forward simulation: when a
relation between the states of two systems is kept by every step that meets a condition, and related
states give the same output, the two runs end related and produce the same outputs.

## Scope

The events of a run are a list, so a run is finite and its order of events is explicit. Concurrency
enters as a quantifier over the lists.
-/

set_option autoImplicit false
set_option relaxedAutoImplicit false

namespace KernelExperiments.Foundation

variable {State Event Output : Type*}

/-! ### The state and the outputs of a run -/

/-- The state a run ends in. -/
def run (step : State → Event → State) (state : State) (events : List Event) : State :=
  events.foldl step state

/-- The outputs of a run, one for each event, in order. -/
def outputs (step : State → Event → State) (output : State → Event → Output) :
    State → List Event → List Output
  | _, [] => []
  | state, event :: rest => output state event :: outputs step output (step state event) rest

@[simp] theorem run_nil (step : State → Event → State) (state : State) :
    run step state [] = state := rfl

@[simp] theorem run_cons (step : State → Event → State) (state : State) (event : Event)
    (rest : List Event) :
    run step state (event :: rest) = run step (step state event) rest := rfl

theorem run_append (step : State → Event → State) (state : State) (first second : List Event) :
    run step state (first ++ second) = run step (run step state first) second :=
  List.foldl_append

theorem outputs_append (step : State → Event → State) (output : State → Event → Output)
    (state : State) (first second : List Event) :
    outputs step output state (first ++ second) =
      outputs step output state first ++ outputs step output (run step state first) second := by
  induction first generalizing state with
  | nil => rfl
  | cons event rest ih => simp only [List.cons_append, outputs, run_cons, ih]

theorem length_outputs (step : State → Event → State) (output : State → Event → Output)
    (state : State) (events : List Event) :
    (outputs step output state events).length = events.length := by
  induction events generalizing state with
  | nil => rfl
  | cons event rest ih => simp only [outputs, List.length_cons, ih]

/-- A run over events read as other events. -/
theorem run_map {Source : Type*} (step : State → Event → State) (read : Source → Event)
    (state : State) (events : List Source) :
    run step state (events.map read) =
      run (fun state event ↦ step state (read event)) state events :=
  List.foldl_map

theorem outputs_map {Source : Type*} (step : State → Event → State)
    (output : State → Event → Output) (read : Source → Event) (state : State)
    (events : List Source) :
    outputs step output state (events.map read) =
      outputs (fun state event ↦ step state (read event))
        (fun state event ↦ output state (read event)) state events := by
  induction events generalizing state with
  | nil => rfl
  | cons event rest ih => simp only [List.map_cons, outputs, ih]

/-- The outputs of a run seen through a function. -/
theorem map_outputs {View : Type*} (step : State → Event → State)
    (output : State → Event → Output) (view : Output → View) (state : State)
    (events : List Event) :
    (outputs step output state events).map view =
      outputs step (fun state event ↦ view (output state event)) state events := by
  induction events generalizing state with
  | nil => rfl
  | cons event rest ih => simp only [List.map_cons, outputs, ih]

/-- Outputs that do not depend on the state are read off the events. -/
theorem outputs_eq_map (step : State → Event → State) {output : State → Event → Output}
    {read : Event → Output} (hread : ∀ state event, output state event = read event)
    (state : State) (events : List Event) :
    outputs step output state events = events.map read := by
  induction events generalizing state with
  | nil => rfl
  | cons event rest ih => simp only [outputs, List.map_cons, hread, ih]

/-! ### Properties of every step -/

/-- The property holds of every step of the run: of each event in the state it is taken in. -/
def Along (step : State → Event → State) (property : State → Event → Prop) :
    State → List Event → Prop
  | _, [] => True
  | state, event :: rest => property state event ∧ Along step property (step state event) rest

instance decidableAlong (step : State → Event → State) (property : State → Event → Prop)
    [∀ state event, Decidable (property state event)] :
    (state : State) → (events : List Event) → Decidable (Along step property state events)
  | _, [] => isTrue trivial
  | state, event :: rest =>
    have := decidableAlong step property (step state event) rest
    inferInstanceAs (Decidable (property state event ∧ _))

variable {step : State → Event → State} {property effect : State → Event → Prop}

@[simp] theorem along_nil (state : State) : Along step property state [] := trivial

@[simp] theorem along_cons (state : State) (event : Event) (rest : List Event) :
    Along step property state (event :: rest) ↔
      property state event ∧ Along step property (step state event) rest := Iff.rfl

theorem along_append (state : State) (first second : List Event) :
    Along step property state (first ++ second) ↔
      Along step property state first ∧ Along step property (run step state first) second := by
  induction first generalizing state with
  | nil => exact (and_iff_right trivial).symm
  | cons event rest ih => rw [List.cons_append, along_cons, along_cons, ih, run_cons, and_assoc]

/-- Two properties hold of every step exactly when both do. -/
theorem along_and {state : State} {events : List Event} :
    Along step (fun state event ↦ property state event ∧ effect state event) state events ↔
      Along step property state events ∧ Along step effect state events := by
  induction events generalizing state with
  | nil => exact iff_of_true trivial ⟨trivial, trivial⟩
  | cons event rest ih =>
    rw [along_cons, along_cons, along_cons, ih]
    exact and_and_and_comm

/-- An invariant that every step meeting the condition keeps is kept by a run of such steps. -/
theorem run_induction {invariant : State → Prop}
    (hstep : ∀ state event, invariant state → property state event →
      invariant (step state event))
    {state : State} {events : List Event} (hstart : invariant state)
    (halong : Along step property state events) : invariant (run step state events) := by
  induction events generalizing state with
  | nil => exact hstart
  | cons event rest ih => exact ih (hstep state event hstart halong.1) halong.2

/-- An invariant that every step keeps is kept by a run. -/
theorem run_invariant {invariant : State → Prop}
    (hstep : ∀ state event, invariant state → invariant (step state event))
    {state : State} (hstart : invariant state) (events : List Event) :
    invariant (run step state events) := by
  induction events generalizing state with
  | nil => exact hstart
  | cons event rest ih => exact ih (hstep state event hstart)

/-- A property that follows from an invariant and the condition on a step holds of every step of a
run of such steps. -/
theorem along_of_invariant {invariant : State → Prop}
    (hstep : ∀ state event, invariant state → property state event →
      invariant (step state event))
    (heffect : ∀ state event, invariant state → property state event → effect state event)
    {state : State} {events : List Event} (hstart : invariant state)
    (halong : Along step property state events) : Along step effect state events := by
  induction events generalizing state with
  | nil => trivial
  | cons event rest ih =>
    exact ⟨heffect state event hstart halong.1, ih (hstep state event hstart halong.1) halong.2⟩

/-- Under an invariant two properties of a step are equivalent, and one of them keeps the invariant:
then they hold of the same runs. -/
theorem along_iff_of_invariant {invariant : State → Prop}
    (hiff : ∀ state event, invariant state → (effect state event ↔ property state event))
    (hstep : ∀ state event, invariant state → property state event →
      invariant (step state event))
    {state : State} (hstart : invariant state) (events : List Event) :
    Along step effect state events ↔ Along step property state events := by
  induction events generalizing state with
  | nil => exact Iff.rfl
  | cons event rest ih =>
    rw [along_cons, along_cons, hiff state event hstart]
    exact and_congr_right fun hproperty ↦ ih (hstep state event hstart hproperty)

/-- When a step keeps an invariant exactly if it has the property, and the invariant once lost stays
lost, every step of a run has the property exactly if the invariant holds at its end. -/
theorem along_iff_run {invariant : State → Prop}
    (hiff : ∀ state event, invariant state → (property state event ↔ invariant (step state event)))
    (hlost : ∀ state event, ¬ invariant state → ¬ invariant (step state event))
    {state : State} (hstart : invariant state) (events : List Event) :
    Along step property state events ↔ invariant (run step state events) := by
  induction events generalizing state with
  | nil => exact iff_of_true trivial hstart
  | cons event rest ih =>
    rw [along_cons, run_cons, hiff state event hstart]
    by_cases hnext : invariant (step state event)
    · rw [and_iff_right hnext]
      exact ih hnext
    · exact iff_of_false (fun hall ↦ hnext hall.1) (run_invariant hlost hnext rest)

/-- A property weaker than one that holds of every step holds of every step. -/
theorem Along.mono (himp : ∀ state event, property state event → effect state event)
    {state : State} {events : List Event} (halong : Along step property state events) :
    Along step effect state events := by
  induction events generalizing state with
  | nil => trivial
  | cons event rest ih => exact ⟨himp state event halong.1, ih halong.2⟩

/-- Properties that are equivalent for every step hold of the same runs. -/
theorem along_congr (hiff : ∀ state event, property state event ↔ effect state event)
    {state : State} {events : List Event} :
    Along step property state events ↔ Along step effect state events :=
  ⟨fun halong ↦ halong.mono fun state event ↦ (hiff state event).mp,
    fun halong ↦ halong.mono fun state event ↦ (hiff state event).mpr⟩

/-- A property of all steps whatever holds of every step of a run. -/
theorem along_of_forall (hall : ∀ state event, property state event) (state : State)
    (events : List Event) : Along step property state events := by
  induction events generalizing state with
  | nil => trivial
  | cons event rest ih => exact ⟨hall state event, ih (step state event)⟩

/-- A property of the events of a run holds of every step exactly when it holds of every event. -/
theorem along_iff_forall_mem (step : State → Event → State) (admissible : Event → Prop)
    (state : State) (events : List Event) :
    Along step (fun _ event ↦ admissible event) state events ↔
      ∀ event ∈ events, admissible event := by
  induction events generalizing state with
  | nil => exact iff_of_true trivial fun _ hevent ↦ absurd hevent List.not_mem_nil
  | cons event rest ih => rw [along_cons, ih, List.forall_mem_cons]

/-- A property of the events of a run holds of every step. -/
theorem along_of_mem (step : State → Event → State) {admissible : Event → Prop}
    {events : List Event} (hall : ∀ event ∈ events, admissible event) (state : State) :
    Along step (fun _ event ↦ admissible event) state events :=
  (along_iff_forall_mem step admissible state events).mpr hall

/-- A property holds of every output exactly when it holds of the output of every step. -/
theorem forall_mem_outputs_iff (step : State → Event → State) (output : State → Event → Output)
    (allowed : Output → Prop) (state : State) (events : List Event) :
    (∀ result ∈ outputs step output state events, allowed result) ↔
      Along step (fun state event ↦ allowed (output state event)) state events := by
  induction events generalizing state with
  | nil => exact iff_of_true (fun _ hresult ↦ absurd hresult List.not_mem_nil) trivial
  | cons event rest ih => rw [outputs, List.forall_mem_cons, ih, along_cons]

/-- A property of the output of every step holds of every output. -/
theorem forall_mem_outputs {output : State → Event → Output} {allowed : Output → Prop}
    {state : State} {events : List Event}
    (halong : Along step (fun state event ↦ allowed (output state event)) state events) :
    ∀ result ∈ outputs step output state events, allowed result :=
  (forall_mem_outputs_iff step output allowed state events).mpr halong

/-- Conservation. When every step that meets the condition takes in and gives out so that what it
gives out, followed by what the next state holds, is what the state held, followed by what the step
takes in, then so does a run of such steps. -/
theorem outputs_conservation {α : Type*} (held : State → List α)
    {given taken : State → Event → List α}
    (hstep : ∀ state event, property state event →
      given state event ++ held (step state event) = held state ++ taken state event)
    {state : State} {events : List Event} (halong : Along step property state events) :
    (outputs step given state events).flatten ++ held (run step state events) =
      held state ++ (outputs step taken state events).flatten := by
  induction events generalizing state with
  | nil => simp only [outputs, List.flatten_nil, List.nil_append, List.append_nil, run_nil]
  | cons event rest ih =>
    have hrest := ih halong.2
    have hfirst := hstep state event halong.1
    simp only [outputs, List.flatten_cons, List.append_assoc, run_cons, hrest]
    rw [← List.append_assoc, hfirst, List.append_assoc]

/-! ### Simulation -/

/-- Forward simulation. When every step that meets the condition keeps the relation between the
concrete and the abstract state and gives the same output in both, a run of such steps ends in
related states and both systems give the same outputs. -/
theorem run_simulation {Abstract : Type*} {abstractStep : Abstract → Event → Abstract}
    {output : State → Event → Output} {abstractOutput : Abstract → Event → Output}
    {relation : State → Abstract → Prop}
    (hstep : ∀ state abstract event, relation state abstract → property state event →
      relation (step state event) (abstractStep abstract event) ∧
        output state event = abstractOutput abstract event)
    {state : State} {abstract : Abstract} {events : List Event} (hstart : relation state abstract)
    (halong : Along step property state events) :
    relation (run step state events) (run abstractStep abstract events) ∧
      outputs step output state events = outputs abstractStep abstractOutput abstract events := by
  induction events generalizing state abstract with
  | nil => exact ⟨hstart, rfl⟩
  | cons event rest ih =>
    obtain ⟨hnext, houtput⟩ := hstep state abstract event hstart halong.1
    obtain ⟨hfinal, houtputs⟩ := ih hnext halong.2
    exact ⟨hfinal, by simp only [outputs, houtput, houtputs]⟩

end KernelExperiments.Foundation
