import KernelExperiments.Foundation.Interleaving

/-!
# Interleavings that come to an end

When every step of every actor lowers a measure of the state, an interleaving has no more steps than
the measure of its first state (`effectiveTurns_add_measure_le`). A round is a schedule in which
every actor has a turn; what else is in it, and in what order, does not matter. A system that is not
stuck takes a step in every round, so after as many rounds as the measure says it is stuck
(`stuck_of_rounds`), and for a system without deadlocks this is its end.
-/

set_option autoImplicit false
set_option relaxedAutoImplicit false

namespace KernelExperiments.Foundation

variable {State Actor : Type*} {next : State → Actor → Option State}

/-- The number of turns of a schedule in which the actor takes a step. -/
def effectiveTurns (next : State → Actor → Option State) : State → List Actor → ℕ
  | _, [] => 0
  | state, actor :: rest =>
    (if (next state actor).isSome then 1 else 0) +
      effectiveTurns next (attempt next state actor) rest

/-- The rounds of a schedule: every actor has a turn in each of them. -/
def FairRounds (rounds : List (List Actor)) : Prop := ∀ round ∈ rounds, ∀ actor, actor ∈ round

/-- In a schedule without a step no actor could take one. -/
theorem next_eq_none_of_effectiveTurns {state : State} {schedule : List Actor}
    (hnone : effectiveTurns next state schedule = 0) :
    ∀ actor ∈ schedule, next state actor = none := by
  induction schedule with
  | nil => exact fun _ hactor ↦ absurd hactor List.not_mem_nil
  | cons first rest ih =>
    rw [effectiveTurns] at hnone
    cases hnext : next state first with
    | some final =>
      rw [hnext] at hnone
      simp only [Option.isSome_some, if_true] at hnone
      omega
    | none =>
      rw [attempt_of_none hnext, hnext] at hnone
      rw [List.forall_mem_cons]
      exact ⟨hnext, ih (by simpa using hnone)⟩

/-- A stuck system stays as it is. -/
theorem run_of_stuck {state : State} (hstuck : Stuck next state) (schedule : List Actor) :
    run (attempt next) state schedule = state := by
  induction schedule with
  | nil => rfl
  | cons actor rest ih => rw [run_cons, attempt_of_none (hstuck actor), ih]

section Measure

variable {invariant : State → Prop} {measure : State → ℕ}
  (hkeep : ∀ state actor final, next state actor = some final → invariant state → invariant final)
  (hlower : ∀ state actor final, next state actor = some final → invariant state →
    measure final < measure state)

include hkeep hlower

/-- The steps of a schedule are paid for by the measure. -/
theorem effectiveTurns_add_measure_le {initial : State} (hstart : invariant initial)
    (schedule : List Actor) :
    effectiveTurns next initial schedule + measure (run (attempt next) initial schedule) ≤
      measure initial := by
  induction schedule generalizing initial with
  | nil => exact Nat.le_of_eq (Nat.zero_add _)
  | cons actor rest ih =>
    rw [effectiveTurns, run_cons]
    cases hnext : next initial actor with
    | none =>
      rw [attempt_of_none hnext]
      simpa using ih hstart
    | some final =>
      have hrest := ih (hkeep initial actor final hnext hstart)
      have hstep := hlower initial actor final hnext hstart
      rw [attempt_of_some hnext]
      simp only [Option.isSome_some, if_true]
      omega

/-- A round lowers the measure, unless the system is stuck. -/
theorem stuck_or_measure_run_lt {state : State} (hstate : invariant state) {round : List Actor}
    (hround : ∀ actor, actor ∈ round) :
    Stuck next state ∨ measure (run (attempt next) state round) < measure state := by
  rcases Nat.eq_zero_or_pos (effectiveTurns next state round) with hnone | hsome
  · exact Or.inl fun actor ↦ next_eq_none_of_effectiveTurns hnone actor (hround actor)
  · have hpaid := effectiveTurns_add_measure_le hkeep hlower hstate round
    exact Or.inr (by omega)

/-- After as many rounds as the measure says the system is stuck. -/
theorem stuck_of_rounds {initial : State} (hstart : invariant initial)
    {rounds : List (List Actor)} (hfair : FairRounds rounds)
    (hmany : measure initial ≤ rounds.length) :
    Stuck next (run (attempt next) initial rounds.flatten) := by
  induction rounds generalizing initial with
  | nil =>
    intro actor
    cases hnext : next initial actor with
    | none => exact hnext
    | some final =>
      have hstep := hlower initial actor final hnext hstart
      rw [List.length_nil] at hmany
      omega
  | cons round rest ih =>
    obtain ⟨hround, hrest⟩ := List.forall_mem_cons.mp hfair
    rw [List.flatten_cons, run_append]
    rcases stuck_or_measure_run_lt hkeep hlower hstart hround with hstuck | hlt
    · rwa [run_of_stuck hstuck, run_of_stuck hstuck]
    · rw [List.length_cons] at hmany
      exact ih (interleaving_invariant hstart hkeep round) hrest (by omega)

end Measure

end KernelExperiments.Foundation
