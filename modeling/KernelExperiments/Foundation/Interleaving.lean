import KernelExperiments.Foundation.Runs
import Mathlib.Logic.Function.Basic

/-!
# Interleavings of sequential processes

Several actors take turns on one state. `next state actor` is the state after the actor's next
step, and `none` when the actor cannot take one: it is blocked, or at its end. A schedule is a list
of actors, and `attempt` lets an actor that cannot go on pass its turn, so that every list of actors
is a schedule and every interleaving of the actors' steps is the run of one.

A property kept by every step holds after every schedule (`interleaving_invariant`), and a step
property that follows from such an invariant holds along every schedule
(`along_interleaving`). `Stuck` states, in which no actor can go on, are the deadlocks and the ends
of the system.

Where the state holds a program counter for each process, a step moves one of them:
`forall_update` and `add_update` say what then becomes of a property of all processes, and of what
two processes weigh together.

## Scope

Schedules are finite and carry no fairness: what is proved of them is safety, and that some actor
can go on.
-/

set_option autoImplicit false
set_option relaxedAutoImplicit false

namespace KernelExperiments.Foundation

variable {State Actor : Type*}

/-- The state after an actor has had its turn. -/
def attempt (next : State → Actor → Option State) (state : State) (actor : Actor) : State :=
  (next state actor).getD state

/-- No actor can go on. -/
def Stuck (next : State → Actor → Option State) (state : State) : Prop :=
  ∀ actor, next state actor = none

variable {next : State → Actor → Option State}

theorem attempt_of_some {state final : State} {actor : Actor}
    (hnext : next state actor = some final) : attempt next state actor = final := by
  rw [attempt, hnext, Option.getD_some]

theorem attempt_of_none {state : State} {actor : Actor} (hnext : next state actor = none) :
    attempt next state actor = state := by
  rw [attempt, hnext, Option.getD_none]

/-- A turn keeps what every step keeps. -/
theorem attempt_invariant {invariant : State → Prop}
    (hstep : ∀ state actor final, next state actor = some final → invariant state → invariant final)
    (state : State) (actor : Actor) (hstate : invariant state) :
    invariant (attempt next state actor) := by
  cases hnext : next state actor with
  | none => rwa [attempt_of_none hnext]
  | some final =>
    rw [attempt_of_some hnext]
    exact hstep state actor final hnext hstate

/-- What every step keeps holds after every schedule. -/
theorem interleaving_invariant {invariant : State → Prop} {initial : State}
    (hstart : invariant initial)
    (hstep : ∀ state actor final, next state actor = some final → invariant state → invariant final)
    (schedule : List Actor) : invariant (run (attempt next) initial schedule) :=
  run_invariant (attempt_invariant hstep) hstart schedule

/-- A property of a turn that follows from what every step keeps holds along every schedule. -/
theorem along_interleaving {invariant : State → Prop} {effect : State → Actor → Prop}
    {initial : State} (hstart : invariant initial)
    (hstep : ∀ state actor final, next state actor = some final → invariant state → invariant final)
    (heffect : ∀ state actor, invariant state → effect state actor) (schedule : List Actor) :
    Along (attempt next) effect initial schedule := by
  have hall : Along (attempt next) (fun _ _ ↦ True) initial schedule :=
    along_of_forall (fun _ _ ↦ trivial) initial schedule
  exact along_of_invariant (fun state actor hstate _ ↦ attempt_invariant hstep state actor hstate)
    (fun state actor hstate _ ↦ heffect state actor hstate) hstart hall

/-! ### One process moves -/

variable {Process Pc : Type*} [DecidableEq Process]

/-- What holds of every process after one of them has moved. -/
theorem forall_update (pcs : Process → Pc) (self : Process) (pc : Pc)
    (property : Process → Pc → Prop) (hself : property self pc)
    (hothers : ∀ other, other ≠ self → property other (pcs other)) :
    ∀ process, property process (Function.update pcs self pc process) :=
  (Function.forall_update_iff pcs property).mpr ⟨hself, hothers⟩

/-- What two processes weigh together after one of them has moved. -/
theorem add_update {first second : Process} (hne : first ≠ second) (weight : Pc → ℕ)
    (pcs : Process → Pc) {self : Process} (hself : self = first ∨ self = second) (pc : Pc) :
    weight (Function.update pcs self pc first) + weight (Function.update pcs self pc second) +
        weight (pcs self) =
      weight (pcs first) + weight (pcs second) + weight pc := by
  rcases hself with rfl | rfl
  · rw [Function.update_self, Function.update_of_ne hne.symm]
    omega
  · rw [Function.update_self, Function.update_of_ne hne]
    omega

end KernelExperiments.Foundation
