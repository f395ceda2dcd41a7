import KernelExperiments.Foundation.Rounds
import KernelExperiments.Processes.PipeOrder

/-!
# The parent and its children come to their end

No process of `exp1.5.c` has a loop, so each step leaves less to do (`State.stepsLeft`), but each of
them may have to wait: for the lock, for the end of a child, for bytes in the pipe. None waits for
ever: an interleaving has at most 18 steps, and when every process has a turn often enough the
parent has waited for both children, has read both blocks, in one order or the other, and the pipe
is empty (`pipeOrder_ends`).
-/

set_option autoImplicit false
set_option relaxedAutoImplicit false

namespace KernelExperiments.Processes

open Foundation

/-! ### What is left to do -/

/-- The steps of a child, and of the parent for it, until the parent has waited for it. -/
def ChildPc.stepsLeft : ChildPc → ℕ
  | .notForked | .lockf => 6
  | .sprintf => 5
  | .write => 4
  | .unlockf => 3
  | .exit => 2
  | .zombie => 1
  | .reaped => 0

/-- The steps of the parent until its end. -/
def ParentPc.stepsLeft : ParentPc → ℕ
  | .forkP1 => 6
  | .forkP2 => 5
  | .firstWait => 4
  | .firstRead => 3
  | .secondWait => 2
  | .secondRead => 1
  | .finished => 0

/-- The steps that are left, at most. -/
def State.stepsLeft (state : State) : ℕ :=
  (state.childPc .p1).stepsLeft + (state.childPc .p2).stepsLeft + state.parentPc.stepsLeft

variable {outpipe : CharArray} {state final : State}

/-- What is left after one child has moved, by itself or in a fork or a `wait`. -/
theorem stepsLeft_goto (state : State) (self : Child) (pc : ChildPc) :
    (state.goto self pc).stepsLeft + (state.childPc self).stepsLeft =
      state.stepsLeft + pc.stepsLeft := by
  have hne : Child.p1 ≠ Child.p2 := by decide
  have hself : self = .p1 ∨ self = .p2 := by cases self <;> decide
  have hsum := add_update hne ChildPc.stepsLeft state.childPc hself pc
  unfold State.stepsLeft State.goto
  dsimp only
  omega

/-- A step of a child leaves less to do. -/
theorem stepsLeft_childBody {self : Child} (hstep : childBody self state = some final) :
    final.stepsLeft < state.stepsLeft := by
  have hgoto : ∀ pc : ChildPc, pc.stepsLeft < (state.childPc self).stepsLeft →
      (state.goto self pc).stepsLeft < state.stepsLeft := by
    intro pc hless
    have hsum := stepsLeft_goto state self pc
    omega
  unfold childBody at hstep
  cases hpc : state.childPc self with
  | notForked | zombie | reaped =>
    rw [hpc] at hstep
    cases hstep
  | lockf =>
    simp only [hpc] at hstep
    split at hstep
    · cases hstep
      exact hgoto .sprintf (by rw [hpc]; decide)
    · cases hstep
  | sprintf =>
    simp only [hpc] at hstep
    cases hstep
    exact hgoto .write (by rw [hpc]; decide)
  | write =>
    simp only [hpc] at hstep
    cases hstep
    exact hgoto .unlockf (by rw [hpc]; decide)
  | unlockf =>
    simp only [hpc] at hstep
    cases hstep
    exact hgoto .exit (by rw [hpc]; decide)
  | exit =>
    simp only [hpc] at hstep
    cases hstep
    exact hgoto .zombie (by rw [hpc]; decide)

/-- A fork leaves less to do: the child has its steps before it as when it was not forked. -/
theorem Invariant.stepsLeft_fork (hinv : Invariant outpipe state) {self : Child} {pc : ParentPc}
    (hnew : ¬ state.parentPc.Forked self) (hless : pc.stepsLeft < state.parentPc.stepsLeft) :
    State.stepsLeft { state.goto self .lockf with parentPc := pc } < state.stepsLeft := by
  have hpc : state.childPc self = .notForked := by
    by_contra hne
    exact hnew ((hinv.forked_iff self).mp hne)
  have hsum := stepsLeft_goto state self .lockf
  rw [hpc] at hsum
  have hsame : ChildPc.lockf.stepsLeft = ChildPc.notForked.stepsLeft := rfl
  unfold State.stepsLeft State.goto at hsum ⊢
  dsimp only at hsum ⊢
  omega

/-- A `wait` that returns leaves less to do. -/
theorem stepsLeft_wait {ended : Child} {following : ParentPc}
    (hless : following.stepsLeft < state.parentPc.stepsLeft)
    (hwait : wait ended following state = some final) : final.stepsLeft < state.stepsLeft := by
  unfold wait at hwait
  split at hwait
  · rename_i hpc
    cases hwait
    have hsum := stepsLeft_goto state ended .reaped
    rw [hpc] at hsum
    have hreaped : ChildPc.reaped.stepsLeft = 0 := rfl
    unfold State.stepsLeft State.goto at hsum ⊢
    dsimp only at hsum ⊢
    omega
  · cases hwait

/-- A `read` that returns leaves less to do. -/
theorem stepsLeft_read {following : ParentPc}
    (hless : following.stepsLeft < state.parentPc.stepsLeft)
    (hread : read following state = some final) : final.stepsLeft < state.stepsLeft := by
  unfold read at hread
  split at hread
  · cases hread
  · cases hread
    unfold State.stepsLeft
    dsimp only
    omega

/-- A step of the parent leaves less to do. -/
theorem stepsLeft_parent (hinv : Invariant outpipe state) {ended : Child}
    (hstep : parent ended state = some final) : final.stepsLeft < state.stepsLeft := by
  unfold parent at hstep
  cases hpc : state.parentPc with
  | finished =>
    simp only [hpc] at hstep
    cases hstep
  | forkP1 =>
    simp only [hpc] at hstep
    cases hstep
    exact hinv.stepsLeft_fork (by rw [hpc]; exact id) (by rw [hpc]; decide)
  | forkP2 =>
    simp only [hpc] at hstep
    cases hstep
    exact hinv.stepsLeft_fork (by rw [hpc]; exact nofun) (by rw [hpc]; decide)
  | firstWait | secondWait =>
    simp only [hpc] at hstep
    exact stepsLeft_wait (by rw [hpc]; decide) hstep
  | firstRead | secondRead =>
    simp only [hpc] at hstep
    exact stepsLeft_read (by rw [hpc]; decide) hstep

/-- A step of any process leaves less to do. -/
theorem Invariant.stepsLeft_next (hinv : Invariant outpipe state) {actor : Actor}
    (hnext : next state actor = some final) : final.stepsLeft < state.stepsLeft := by
  cases actor with
  | child self => exact stepsLeft_childBody hnext
  | parent ended => exact stepsLeft_parent hinv hnext

/-! ### The end -/

/-- Two children have written in one of two orders. -/
theorem writes_of_two {writes : List Child} (hnodup : writes.Nodup) (htwo : 2 ≤ writes.length) :
    writes = [.p1, .p2] ∨ writes = [.p2, .p1] := by
  match writes, htwo with
  | [.p1, .p2], _ => exact Or.inl rfl
  | [.p2, .p1], _ => exact Or.inr rfl
  | [.p1, .p1], _ => exact absurd hnodup (by decide)
  | [.p2, .p2], _ => exact absurd hnodup (by decide)
  | first :: second :: third :: _, _ =>
    cases first <;> cases second <;> cases third <;> simp at hnodup

/-- The parent has waited for both children and read both blocks, and nothing is left in the
pipe. -/
structure Ended (outpipe : CharArray) (state : State) : Prop where
  finished : state.parentPc = .finished
  reaped : ∀ child, state.childPc child = .reaped
  received_perm : state.received.Perm [block outpipe .p1, block outpipe .p2]
  pipe_empty : state.pipe = []

/-- Where only the end of the parent is left, both children are reaped and both blocks read. -/
theorem Invariant.ended (hinv : Invariant outpipe state) (hfinished : state.parentPc = .finished) :
    Ended outpipe state := by
  have hreads : state.parentPc.reads = 2 := by rw [hfinished]; rfl
  have htwo := hinv.reads_le
  have hreceived := hinv.received_eq
  have hpipe := hinv.pipe_eq
  have hreaped := hinv.reaped_eq
  rw [hreads] at htwo hreceived hpipe
  rw [hfinished] at hreaped
  refine ⟨hfinished, ?_, ?_, ?_⟩
  · have hboth : ∀ pc : ChildPc, pc.reaps ≤ 1 ∧ (pc.reaps = 1 → pc = .reaped) := by
      intro pc
      cases pc <;> exact ⟨by decide, by first | exact fun _ ↦ rfl | exact nofun⟩
    have hsum : (state.childPc .p1).reaps + (state.childPc .p2).reaps = 2 := hreaped
    have hfirst := hboth (state.childPc .p1)
    have hsecond := hboth (state.childPc .p2)
    intro child
    cases child with
    | p1 => exact hfirst.2 (by omega)
    | p2 => exact hsecond.2 (by omega)
  · rcases writes_of_two hinv.nodup htwo with hwrites | hwrites
    · rw [hreceived, hwrites]
      exact List.Perm.refl _
    · rw [hreceived, hwrites]
      exact List.Perm.swap _ _ _
  · rcases writes_of_two hinv.nodup htwo with hwrites | hwrites
    · rw [hpipe, hwrites]
      rfl
    · rw [hpipe, hwrites]
      rfl

/-- Every interleaving of the parent and the children has at most 18 steps; and after as many rounds
in which each of them has a turn, the parent has ended, with both children and both blocks. -/
theorem pipeOrder_ends (outpipe : CharArray) :
    (∀ schedule, effectiveTurns next (State.initial outpipe) schedule ≤ 18) ∧
      ∀ rounds : List (List Actor), FairRounds rounds → 18 ≤ rounds.length →
        Ended outpipe (run (attempt next) (State.initial outpipe) rounds.flatten) := by
  have hstart := invariant_initial outpipe
  have hkeep := invariant_next outpipe
  have hlower : ∀ state actor final, next state actor = some final →
      Invariant outpipe state → final.stepsLeft < state.stepsLeft :=
    fun _ _ _ hnext hinv ↦ hinv.stepsLeft_next hnext
  have hinitial : (State.initial outpipe).stepsLeft = 18 := rfl
  refine ⟨fun schedule ↦ ?_, fun rounds hfair hmany ↦ ?_⟩
  · have hpaid := effectiveTurns_add_measure_le hkeep hlower hstart schedule
    omega
  · have hinv := interleaving_invariant hstart hkeep rounds.flatten
    have hstuck := stuck_of_rounds hkeep hlower hstart hfair (by omega)
    exact hinv.ended (hinv.finished_of_stuck hstuck)

/-- The parent ends when all take turns 18 times. -/
theorem ended_roundRobin :
    Ended ⟨List.replicate 100 0, List.length_replicate⟩
      (run (attempt next) (State.initial ⟨List.replicate 100 0, List.length_replicate⟩)
        (List.replicate 18
          [.parent .p1, .parent .p2, .child .p1, .child .p2]).flatten) := by
  refine (pipeOrder_ends _).2 _ ?_ (Nat.le_of_eq List.length_replicate.symm)
  intro round hround actor
  rw [List.eq_of_mem_replicate hround]
  cases actor with
  | child self => cases self <;> simp
  | parent ended => cases ended <;> simp

end KernelExperiments.Processes
