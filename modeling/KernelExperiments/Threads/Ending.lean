import KernelExperiments.Foundation.Rounds
import KernelExperiments.Threads.SharedCounter

/-!
# The counting threads come to their end

The loops of the threads have no bound of their own: a thread goes round until it finds its limit
reached. `State.stepsLeft` counts what is left to do, with five steps for every increment that the
limits still allow; every step of a thread or of `main` lowers it. So an interleaving has at most
`19 + 5 * limit` steps, for the larger limit, and when every actor has a turn often enough the
program ends: both threads have exited, and `main` has printed the larger limit
(`sharedCounter_ends`).
-/

set_option autoImplicit false
set_option relaxedAutoImplicit false

namespace KernelExperiments.Threads

open Foundation

/-! ### What is left to do -/

/-- The steps of a thread before it is back in front of its loop or has exited. -/
def ThreadPc.stepsLeft : ThreadPc → ℕ
  | .semPost => 7
  | .notCreated | .semWait => 6
  | .exitCondition => 5
  | .load => 4
  | .store _ => 3
  | .exitSemPost => 2
  | .pthreadExit => 1
  | .exited => 0

/-- The larger limit. -/
def Limits.larger (limits : Limits) : ℤ := max (limits.limit .t1) (limits.limit .t2)

/-- The steps that are left, at most. -/
def State.stepsLeft (limits : Limits) (state : State) : ℕ :=
  (state.threadPc .t1).stepsLeft + (state.threadPc .t2).stepsLeft + (7 - state.mainPc.rank) +
    5 * (limits.larger - state.sharedData).toNat

variable {limits : Limits} {state final : State}

theorem Limits.limit_le_larger (limits : Limits) (thread : ThreadId) :
    limits.limit thread ≤ limits.larger := by
  cases thread with
  | t1 => exact le_max_left _ _
  | t2 => exact le_max_right _ _

/-- What the threads have left after one of them has moved. -/
theorem stepsLeft_update (threadPc : ThreadId → ThreadPc) (self : ThreadId) (pc : ThreadPc) :
    (Function.update threadPc self pc .t1).stepsLeft +
        (Function.update threadPc self pc .t2).stepsLeft + (threadPc self).stepsLeft =
      (threadPc .t1).stepsLeft + (threadPc .t2).stepsLeft + pc.stepsLeft := by
  have hne : ThreadId.t1 ≠ ThreadId.t2 := by decide
  have hself : self = .t1 ∨ self = .t2 := by cases self <;> decide
  exact add_update hne ThreadPc.stepsLeft threadPc hself pc

/-- A thread that goes on without a store has less left to do. -/
theorem stepsLeft_goto_lt {self : ThreadId} {pc : ThreadPc} (semaphore : Option ℕ)
    (hless : pc.stepsLeft < (state.threadPc self).stepsLeft) :
    State.stepsLeft limits { state.goto self pc with semaphore := semaphore } <
      state.stepsLeft limits := by
  have hsum := stepsLeft_update state.threadPc self pc
  unfold State.stepsLeft State.goto
  dsimp only
  omega

/-- A step of a thread leaves less to do: a store pays for the next round of its loop with the
increment. -/
theorem Invariant.stepsLeft_threadBody (hinv : Invariant limits state) {self : ThreadId}
    (hstep : threadBody (limits.limit self) self state = some final) :
    final.stepsLeft limits < state.stepsLeft limits := by
  have hknows := hinv.knows self
  unfold threadBody at hstep
  cases hpc : state.threadPc self with
  | notCreated | exited =>
    rw [hpc] at hstep
    cases hstep
  | semWait =>
    simp only [hpc] at hstep
    split at hstep
    · cases hstep
      exact stepsLeft_goto_lt _ (by rw [hpc]; decide)
    · cases hstep
  | semPost | exitSemPost =>
    obtain ⟨value, hvalue⟩ := hinv.exists_semaphore hpc trivial
    simp only [hpc, hvalue] at hstep
    cases hstep
    exact stepsLeft_goto_lt _ (by rw [hpc]; decide)
  | exitCondition =>
    simp only [hpc] at hstep
    cases hstep
    refine stepsLeft_goto_lt state.semaphore ?_
    rw [hpc]
    split <;> decide
  | load =>
    simp only [hpc] at hstep
    cases hstep
    exact stepsLeft_goto_lt state.semaphore (by rw [hpc]; exact Nat.lt_succ_self 3)
  | pthreadExit =>
    simp only [hpc] at hstep
    cases hstep
    exact stepsLeft_goto_lt state.semaphore (by rw [hpc]; decide)
  | store value =>
    simp only [hpc] at hstep
    cases hstep
    rw [hpc] at hknows
    obtain ⟨rfl, hbelow⟩ := hknows
    have hlarger := limits.limit_le_larger self
    have hsum := stepsLeft_update state.threadPc self .semPost
    rw [hpc] at hsum
    have hpost : ThreadPc.semPost.stepsLeft = 7 := rfl
    have hstore : (ThreadPc.store state.sharedData).stepsLeft = 3 := rfl
    unfold State.stepsLeft State.goto
    dsimp only
    omega

/-- A step of `main` leaves less to do. -/
theorem Invariant.stepsLeft_main (hinv : Invariant limits state) (hstep : main state = some final) :
    final.stepsLeft limits < state.stepsLeft limits := by
  have hcreate : ∀ self : ThreadId, state.mainPc.rank < self.createdAt →
      (Function.update state.threadPc self .semWait .t1).stepsLeft +
          (Function.update state.threadPc self .semWait .t2).stepsLeft =
        (state.threadPc .t1).stepsLeft + (state.threadPc .t2).stepsLeft := by
    intro self hrank
    have hpc : state.threadPc self = .notCreated := by
      by_contra hne
      exact absurd ((hinv.created_iff self).mp hne) (Nat.not_le.mpr hrank)
    have hsum := stepsLeft_update state.threadPc self .semWait
    rw [hpc] at hsum
    exact Nat.add_right_cancel hsum
  unfold main at hstep
  cases hpc : state.mainPc with
  | finished =>
    simp only [hpc] at hstep
    cases hstep
  | createT1 =>
    have hsum := hcreate .t1 (by rw [hpc]; decide)
    simp only [hpc] at hstep
    cases hstep
    unfold State.stepsLeft State.goto
    rw [hpc]
    simp only [MainPc.rank]
    omega
  | createT2 =>
    have hsum := hcreate .t2 (by rw [hpc]; decide)
    simp only [hpc] at hstep
    cases hstep
    unfold State.stepsLeft State.goto
    rw [hpc]
    simp only [MainPc.rank]
    omega
  | joinT1 | joinT2 =>
    simp only [hpc] at hstep
    split at hstep
    · cases hstep
      unfold State.stepsLeft
      rw [hpc]
      simp only [MainPc.rank]
      omega
    · cases hstep
  | semInit | semDestroy | printf =>
    simp only [hpc] at hstep
    cases hstep
    unfold State.stepsLeft
    rw [hpc]
    simp only [MainPc.rank]
    omega

/-- A step of any actor leaves less to do. -/
theorem Invariant.stepsLeft_next (hinv : Invariant limits state) {actor : Actor}
    (hnext : next limits state actor = some final) :
    final.stepsLeft limits < state.stepsLeft limits := by
  cases actor with
  | main => exact hinv.stepsLeft_main hnext
  | thread self =>
    rw [next_thread] at hnext
    exact hinv.stepsLeft_threadBody hnext

/-! ### The end -/

/-- At its end `main` has printed. -/
def State.PrintsLast (state : State) : Prop := state.mainPc = .finished → state.printed ≠ none

/-- A thread does not touch `main` and what it has printed. -/
theorem printed_threadBody {limit : ℤ} {self : ThreadId}
    (hstep : threadBody limit self state = some final) :
    final.mainPc = state.mainPc ∧ final.printed = state.printed := by
  unfold threadBody at hstep
  cases hpc : state.threadPc self with
  | notCreated | exited =>
    rw [hpc] at hstep
    cases hstep
  | semWait =>
    simp only [hpc] at hstep
    split at hstep
    · cases hstep
      exact ⟨rfl, rfl⟩
    · cases hstep
  | semPost | exitSemPost =>
    simp only [hpc] at hstep
    obtain ⟨value, -, rfl⟩ := Option.map_eq_some_iff.mp hstep
    exact ⟨rfl, rfl⟩
  | exitCondition | load | store _ | pthreadExit =>
    simp only [hpc] at hstep
    cases hstep
    exact ⟨rfl, rfl⟩

/-- A step keeps that `main` has printed at its end. -/
theorem printsLast_next (limits : Limits) (state : State) (actor : Actor) (final : State)
    (hnext : next limits state actor = some final) (hprints : state.PrintsLast) :
    final.PrintsLast := by
  cases actor with
  | thread self =>
    rw [next_thread] at hnext
    obtain ⟨hmain, hprinted⟩ := printed_threadBody hnext
    unfold State.PrintsLast
    rwa [hmain, hprinted]
  | main =>
    change main state = some final at hnext
    unfold main at hnext
    cases hpc : state.mainPc with
    | finished =>
      simp only [hpc] at hnext
      cases hnext
    | printf =>
      simp only [hpc] at hnext
      cases hnext
      exact fun _ ↦ Option.some_ne_none _
    | joinT1 | joinT2 =>
      simp only [hpc] at hnext
      split at hnext
      · cases hnext
        exact nofun
      · cases hnext
    | semInit | createT1 | createT2 | semDestroy =>
      simp only [hpc] at hnext
      cases hnext
      exact nofun

/-- Every interleaving of the threads and `main` has at most `19 + 5 * limit` steps, for the larger
limit; and after as many rounds in which each of them has a turn, both threads have exited and
`main` has printed the larger limit and finished. -/
theorem sharedCounter_ends (limits : Limits) :
    (∀ schedule, effectiveTurns (next limits) State.initial schedule ≤
        19 + 5 * limits.larger.toNat) ∧
      ∀ rounds : List (List Actor), FairRounds rounds →
        19 + 5 * limits.larger.toNat ≤ rounds.length →
          (∀ thread, (run (attempt (next limits)) State.initial rounds.flatten).threadPc thread =
              .exited) ∧
            (run (attempt (next limits)) State.initial rounds.flatten).mainPc = .finished ∧
            (run (attempt (next limits)) State.initial rounds.flatten).printed =
              some limits.larger := by
  have hstart := invariant_initial limits
  have hkeep := invariant_next limits
  have hlower : ∀ state actor final, next limits state actor = some final →
      Invariant limits state → final.stepsLeft limits < state.stepsLeft limits :=
    fun _ _ _ hnext hinv ↦ hinv.stepsLeft_next hnext
  have hinitial : State.initial.stepsLeft limits = 19 + 5 * limits.larger.toNat := by
    have hdata : limits.larger - State.initial.sharedData = limits.larger := Int.sub_zero _
    rw [State.stepsLeft, hdata]
    rfl
  refine ⟨fun schedule ↦ ?_, fun rounds hfair hmany ↦ ?_⟩
  · have hpaid := effectiveTurns_add_measure_le hkeep hlower hstart schedule
    omega
  · have hinv := interleaving_invariant hstart hkeep rounds.flatten
    have hprints : (run (attempt (next limits)) State.initial rounds.flatten).PrintsLast :=
      interleaving_invariant (show State.initial.PrintsLast from nofun) (printsLast_next limits) _
    have hstuck := stuck_of_rounds hkeep hlower hstart hfair (by omega)
    obtain ⟨hexited, hfinished⟩ := hinv.finished_of_stuck hstuck
    refine ⟨hexited, hfinished, ?_⟩
    obtain ⟨value, hvalue⟩ := Option.ne_none_iff_exists'.mp (hprints hfinished)
    obtain ⟨-, hdata⟩ := hinv.printed_eq value hvalue
    rw [hvalue, hdata, hinv.sharedData_of_joined (by rw [hfinished]; decide)]
    rfl

/-- The program of `exp1.4.c` prints 5 when the threads and `main` take turns 44 times. -/
theorem exp14_roundRobin_printed :
    (run (attempt (next exp14)) State.initial
      (List.replicate 44 [.main, .thread .t1, .thread .t2]).flatten).printed = some 5 := by
  have hfair : FairRounds (List.replicate 44 [Actor.main, .thread .t1, .thread .t2]) := by
    intro round hround actor
    rw [List.eq_of_mem_replicate hround]
    cases actor with
    | main => exact List.mem_cons_self
    | thread self => cases self <;> simp
  exact ((sharedCounter_ends exp14).2 _ hfair (by decide)).2.2

end KernelExperiments.Threads
