import KernelExperiments.Foundation.Interleaving
import Mathlib.Algebra.Order.Ring.Int
import Mathlib.Logic.Function.Basic

/-!
# The counter of `exp1.4.c` and `exp3.2.c`

Two threads increment `sharedData` under a semaphore, each until it finds its own limit reached;
`main` creates and joins them. The two programs have one text and differ in the limits: 5 and 5, and
100 and 5. A thread's statements are its steps, with the read and the store of `sharedData++` as two
of them.

`Invariant` carries the law. While the semaphore exists its value and the threads between `sem_wait`
and `sem_post` make one permit, so a thread that stores has read the value that is there. A thread
leaves the loop at its limit and the value never decreases, so the thread with the larger limit goes
on alone after the other has left. `sharedCounter_law` puts this together for every interleaving:
no increment is lost, no state before the end is stuck, and after both joins `sharedData` is the
larger of the limits.

## Scope

The calls succeed: `sem_init`, both `pthread_create` and both `pthread_join`. `sharedData` is an
integer without bounds, and the law keeps it within the limits, which are values of `int`. What the
threads print is not modelled; what `main` prints last is.
-/

set_option autoImplicit false
set_option relaxedAutoImplicit false

namespace KernelExperiments.Threads

open Foundation

/-! ### The program -/

/-- The threads, under the names of `main`. -/
inductive ThreadId
  | t1
  | t2
  deriving DecidableEq

/-- The next statement of a thread. -/
inductive ThreadPc
  | notCreated
  | semWait
  | exitCondition
  | load
  | store (value : ℤ)
  | semPost
  | exitSemPost
  | pthreadExit
  | exited

/-- The next statement of `main`. -/
inductive MainPc
  | semInit
  | createT1
  | createT2
  | joinT1
  | joinT2
  | semDestroy
  | printf
  | finished

/-- The state of the process. The semaphore exists between `sem_init` and `sem_destroy`;
`increments` counts the stores of both threads, and is not a variable of the program. -/
structure State where
  semaphore : Option ℕ
  sharedData : ℤ
  threadPc : ThreadId → ThreadPc
  mainPc : MainPc
  printed : Option ℤ
  increments : ℕ

/-- The state in which `main` starts. -/
def State.initial : State where
  semaphore := none
  sharedData := 0
  threadPc := fun _ ↦ .notCreated
  mainPc := .semInit
  printed := none
  increments := 0

/-- The state with a thread at another statement. -/
def State.goto (state : State) (self : ThreadId) (pc : ThreadPc) : State :=
  { state with threadPc := Function.update state.threadPc self pc }

/-- A step of the body of a thread that leaves its loop at `limit`. -/
def threadBody (limit : ℤ) (self : ThreadId) (state : State) : Option State :=
  match state.threadPc self with
  | .notCreated => none
  | .semWait =>
    match state.semaphore with
    | some (value + 1) => some { state.goto self .exitCondition with semaphore := some value }
    | _ => none
  | .exitCondition =>
    some (state.goto self (if limit ≤ state.sharedData then .exitSemPost else .load))
  | .load => some (state.goto self (.store state.sharedData))
  | .store value =>
    some { state.goto self .semPost with
      sharedData := value + 1, increments := state.increments + 1 }
  | .semPost =>
    state.semaphore.map fun value ↦
      { state.goto self .semWait with semaphore := some (value + 1) }
  | .exitSemPost =>
    state.semaphore.map fun value ↦
      { state.goto self .pthreadExit with semaphore := some (value + 1) }
  | .pthreadExit => some (state.goto self .exited)
  | .exited => none

/-- A step of `main`. -/
def main (state : State) : Option State :=
  match state.mainPc with
  | .semInit => some { state with semaphore := some 1, mainPc := .createT1 }
  | .createT1 => some { state.goto .t1 .semWait with mainPc := .createT2 }
  | .createT2 => some { state.goto .t2 .semWait with mainPc := .joinT1 }
  | .joinT1 =>
    match state.threadPc .t1 with
    | .exited => some { state with mainPc := .joinT2 }
    | _ => none
  | .joinT2 =>
    match state.threadPc .t2 with
    | .exited => some { state with mainPc := .semDestroy }
    | _ => none
  | .semDestroy => some { state with semaphore := none, mainPc := .printf }
  | .printf => some { state with printed := some state.sharedData, mainPc := .finished }
  | .finished => none

/-- The limits in the exit conditions of the threads. -/
structure Limits where
  limit : ThreadId → ℤ
  limit_pos : ∀ thread, 0 < limit thread

/-- The limits of `exp1.4.c`. -/
def exp14 : Limits where
  limit := fun _ ↦ 5
  limit_pos := fun _ ↦ by decide

/-- The limits of `exp3.2.c`. -/
def exp32 : Limits where
  limit
    | .t1 => 100
    | .t2 => 5
  limit_pos thread := by cases thread <;> decide

/-- The threads and `main`, which take turns. -/
inductive Actor
  | thread (self : ThreadId)
  | main

/-- A step of `thread1`. -/
def thread1 (limits : Limits) : State → Option State := threadBody (limits.limit .t1) .t1

/-- A step of `thread2`. -/
def thread2 (limits : Limits) : State → Option State := threadBody (limits.limit .t2) .t2

/-- A step of an actor. -/
def next (limits : Limits) (state : State) : Actor → Option State
  | .thread .t1 => thread1 limits state
  | .thread .t2 => thread2 limits state
  | .main => main state

theorem next_thread (limits : Limits) (state : State) (self : ThreadId) :
    next limits state (.thread self) = threadBody (limits.limit self) self state := by
  cases self <;> rfl

/-! ### The law -/

/-- One for a thread between `sem_wait` and `sem_post`. -/
def ThreadPc.permits : ThreadPc → ℕ
  | .exitCondition | .load | .store _ | .semPost | .exitSemPost => 1
  | .notCreated | .semWait | .pthreadExit | .exited => 0

/-- The number of threads between `sem_wait` and `sem_post`. -/
def holders (threadPc : ThreadId → ThreadPc) : ℕ := (threadPc .t1).permits + (threadPc .t2).permits

/-- What a thread at a statement knows of the data: a thread about to increment that the value is
below its limit, and that it has read it; a thread that leaves that the limit is reached. -/
def ThreadPc.Knows (limit sharedData : ℤ) : ThreadPc → Prop
  | .load => sharedData < limit
  | .store value => value = sharedData ∧ value < limit
  | .exitSemPost | .pthreadExit | .exited => limit ≤ sharedData
  | .notCreated | .semWait | .exitCondition | .semPost => True

/-- The number of statements that `main` has executed. -/
def MainPc.rank : MainPc → ℕ
  | .semInit => 0
  | .createT1 => 1
  | .createT2 => 2
  | .joinT1 => 3
  | .joinT2 => 4
  | .semDestroy => 5
  | .printf => 6
  | .finished => 7

/-- The statements of `main` after which the thread is created, and joined. -/
def ThreadId.createdAt : ThreadId → ℕ
  | .t1 => 2
  | .t2 => 3

@[inherit_doc ThreadId.createdAt]
def ThreadId.joinedAt : ThreadId → ℕ
  | .t1 => 4
  | .t2 => 5

/-- What holds of the counter and its semaphore in a state. -/
structure CounterLaw (limits : Limits) (state : State) : Prop where
  /-- The value of the semaphore and the threads between `sem_wait` and `sem_post` make one. -/
  one_permit : ∀ value, state.semaphore = some value → value + holders state.threadPc = 1
  /-- The semaphore exists between `sem_init` and `sem_destroy`. -/
  semaphore_iff : state.semaphore.isSome ↔ 1 ≤ state.mainPc.rank ∧ state.mainPc.rank ≤ 5
  /-- No increment is lost. -/
  sharedData_eq : state.sharedData = state.increments
  sharedData_le : state.sharedData ≤ max (limits.limit .t1) (limits.limit .t2)
  /-- A thread increments from the value that is there, and below its limit. -/
  store_below : ∀ thread value, state.threadPc thread = .store value →
    value = state.sharedData ∧ value < limits.limit thread
  /-- A thread leaves at its limit or above. -/
  limit_le : ∀ thread, state.threadPc thread = .exitSemPost ∨
    state.threadPc thread = .pthreadExit ∨ state.threadPc thread = .exited →
      limits.limit thread ≤ state.sharedData
  /-- Only the end of the program is stuck. -/
  not_stuck : Stuck (next limits) state →
    (∀ thread, state.threadPc thread = .exited) ∧ state.mainPc = .finished
  /-- After both joins the data is the larger limit, and so is what `main` prints. -/
  sharedData_of_joined : 5 ≤ state.mainPc.rank →
    state.sharedData = max (limits.limit .t1) (limits.limit .t2)
  printed_eq : ∀ value, state.printed = some value →
    value = max (limits.limit .t1) (limits.limit .t2)

/-- What a turn does to the data: nothing, or it is an increment by a thread that finds the data
below its limit. -/
def IncrementLaw (limits : Limits) (state : State) (actor : Actor) : Prop :=
  let final := attempt (next limits) state actor
  (final.sharedData = state.sharedData ∧ final.increments = state.increments) ∨
    ∃ self, actor = .thread self ∧ state.sharedData < limits.limit self ∧
      final.sharedData = state.sharedData + 1 ∧ final.increments = state.increments + 1

/-! ### The invariant -/

/-- The law in the form that every step keeps. -/
structure Invariant (limits : Limits) (state : State) : Prop where
  one_permit : ∀ value, state.semaphore = some value → value + holders state.threadPc = 1
  semaphore_iff : state.semaphore.isSome ↔ 1 ≤ state.mainPc.rank ∧ state.mainPc.rank ≤ 5
  sharedData_eq : state.sharedData = state.increments
  sharedData_le : state.sharedData ≤ max (limits.limit .t1) (limits.limit .t2)
  knows : ∀ thread, (state.threadPc thread).Knows (limits.limit thread) state.sharedData
  created_iff : ∀ thread,
    state.threadPc thread ≠ .notCreated ↔ thread.createdAt ≤ state.mainPc.rank
  joined : ∀ thread, thread.joinedAt ≤ state.mainPc.rank → state.threadPc thread = .exited
  printed_eq : ∀ value, state.printed = some value →
    state.mainPc = .finished ∧ value = state.sharedData

variable {limits : Limits} {state final : State}

/-- The permits after one thread has moved. -/
theorem holders_update (threadPc : ThreadId → ThreadPc) (self : ThreadId) (pc : ThreadPc) :
    holders (Function.update threadPc self pc) + (threadPc self).permits =
      holders threadPc + pc.permits := by
  have hne : ThreadId.t1 ≠ ThreadId.t2 := by decide
  have hself : self = .t1 ∨ self = .t2 := by cases self <;> decide
  exact add_update hne ThreadPc.permits threadPc hself pc

/-- Two different threads do not hold more permits than there are holders. -/
theorem permits_add_le (threadPc : ThreadId → ThreadPc) {self other : ThreadId}
    (hne : other ≠ self) :
    (threadPc self).permits + (threadPc other).permits ≤ holders threadPc := by
  cases self <;> cases other
  · exact absurd rfl hne
  · exact Nat.le_refl _
  · exact Nat.le_of_eq (Nat.add_comm _ _)
  · exact absurd rfl hne

/-- A thread without a permit knows nothing that an increment by another thread can end. -/
theorem ThreadPc.Knows.mono {limit before after : ℤ} {pc : ThreadPc}
    (hknows : pc.Knows limit before) (hpermits : pc.permits = 0) (hle : before ≤ after) :
    pc.Knows limit after := by
  cases pc with
  | pthreadExit => exact Int.le_trans hknows hle
  | exited => exact Int.le_trans hknows hle
  | notCreated => trivial
  | semWait => trivial
  | exitCondition => cases hpermits
  | load => cases hpermits
  | store value => cases hpermits
  | semPost => cases hpermits
  | exitSemPost => cases hpermits

theorem invariant_initial (limits : Limits) : Invariant limits State.initial where
  one_permit := fun _ hvalue ↦ (by cases hvalue)
  semaphore_iff := by decide
  sharedData_eq := rfl
  sharedData_le := Int.le_trans (Int.le_of_lt (limits.limit_pos .t1)) (le_max_left _ _)
  knows := fun _ ↦ trivial
  created_iff := fun thread ↦ by
    cases thread <;> exact iff_of_false (fun hne ↦ hne rfl) (by decide)
  joined := fun thread hrank ↦ by
    cases thread <;> exact absurd hrank (by decide)
  printed_eq := fun _ hvalue ↦ (by cases hvalue)

/-- A thread is between its creation and its exit. -/
def ThreadPc.Active : ThreadPc → Prop
  | .notCreated | .exited => False
  | _ => True

theorem ThreadPc.Active.ne {pc : ThreadPc} (hactive : pc.Active) :
    pc ≠ .notCreated ∧ pc ≠ .exited := by
  constructor <;> rintro rfl <;> exact hactive

/-- While a thread is between its creation and its exit, the semaphore exists. -/
theorem Invariant.exists_semaphore (hinv : Invariant limits state) {self : ThreadId}
    {current : ThreadPc} (hpc : state.threadPc self = current) (hactive : current.Active) :
    ∃ value, state.semaphore = some value := by
  have hcreated := (hinv.created_iff self).mp (by rw [hpc]; exact hactive.ne.1)
  have hjoined : ¬ self.joinedAt ≤ state.mainPc.rank := fun hrank ↦
    hactive.ne.2 (hpc ▸ hinv.joined self hrank)
  refine Option.isSome_iff_exists.mp (hinv.semaphore_iff.mpr ?_)
  cases self <;> simp only [ThreadId.createdAt, ThreadId.joinedAt] at hcreated hjoined <;> omega

/-- A thread that moves without a store keeps the invariant if the permits it takes or gives back
are those of the semaphore, and it knows what it will have to know. -/
theorem Invariant.goto (hinv : Invariant limits state) {self : ThreadId} {current pc : ThreadPc}
    {before after : ℕ} (hpc : state.threadPc self = current) (hactive : current.Active)
    (hcreated : pc ≠ .notCreated) (hbefore : state.semaphore = some before)
    (hpermits : after + pc.permits = before + current.permits)
    (hknows : pc.Knows (limits.limit self) state.sharedData) :
    Invariant limits { state.goto self pc with semaphore := some after } where
  one_permit := by
    intro value hvalue
    cases hvalue
    have hsum := holders_update state.threadPc self pc
    have hone := hinv.one_permit before hbefore
    rw [hpc] at hsum
    show after + holders (Function.update state.threadPc self pc) = 1
    omega
  semaphore_iff := by
    refine Iff.trans ?_ hinv.semaphore_iff
    rw [hbefore]
    exact Iff.rfl
  sharedData_eq := hinv.sharedData_eq
  sharedData_le := hinv.sharedData_le
  knows := forall_update state.threadPc self pc
    (fun thread pc ↦ pc.Knows (limits.limit thread) state.sharedData) hknows
    fun thread _ ↦ hinv.knows thread
  created_iff := by
    refine forall_update state.threadPc self pc
      (fun thread pc ↦ pc ≠ .notCreated ↔ thread.createdAt ≤ state.mainPc.rank) ?_
      fun thread _ ↦ hinv.created_iff thread
    exact iff_of_true hcreated ((hinv.created_iff self).mp (hpc ▸ hactive.ne.1))
  joined := by
    intro thread hrank
    have hexited := hinv.joined thread hrank
    have hne : thread ≠ self := fun hself ↦ hactive.ne.2 (hpc ▸ hself ▸ hexited)
    exact (Function.update_of_ne hne pc state.threadPc).trans hexited
  printed_eq := hinv.printed_eq

/-- A thread that moves without the semaphore. -/
theorem Invariant.goto_of_permits_eq (hinv : Invariant limits state) {self : ThreadId}
    {current pc : ThreadPc} (hpc : state.threadPc self = current) (hactive : current.Active)
    (hcreated : pc ≠ .notCreated) (hpermits : pc.permits = current.permits)
    (hknows : pc.Knows (limits.limit self) state.sharedData) :
    Invariant limits (state.goto self pc) := by
  obtain ⟨value, hvalue⟩ := hinv.exists_semaphore hpc hactive
  have hmoved : Invariant limits { state.goto self pc with semaphore := some value } :=
    hinv.goto hpc hactive hcreated hvalue (by rw [hpermits]) hknows
  rwa [← hvalue] at hmoved

/-- Every other thread is without a permit while a thread holds one. -/
theorem Invariant.permits_eq_zero (hinv : Invariant limits state) {self other : ThreadId}
    {value : ℕ} (hvalue : state.semaphore = some value)
    (hholds : (state.threadPc self).permits = 1) (hne : other ≠ self) :
    (state.threadPc other).permits = 0 := by
  have hone := hinv.one_permit value hvalue
  have hadd := permits_add_le state.threadPc hne
  omega

/-- The data grows by one: the threads that hold a permit are past their store, and the limit of one
of the threads is not reached. -/
theorem Invariant.increment (hinv : Invariant limits state) {self : ThreadId} {value : ℕ}
    (hvalue : state.semaphore = some value) (hpc : state.threadPc self = .semPost)
    (hbelow : state.sharedData < limits.limit self) :
    Invariant limits { state with
      sharedData := state.sharedData + 1, increments := state.increments + 1 } where
  one_permit := hinv.one_permit
  semaphore_iff := hinv.semaphore_iff
  sharedData_eq := by
    show state.sharedData + 1 = ((state.increments + 1 : ℕ) : ℤ)
    rw [hinv.sharedData_eq]
    rfl
  sharedData_le := by
    refine Int.le_trans (Int.add_one_le_of_lt hbelow) ?_
    cases self
    · exact le_max_left _ _
    · exact le_max_right _ _
  knows := by
    intro thread
    show (state.threadPc thread).Knows (limits.limit thread) (state.sharedData + 1)
    by_cases hself : thread = self
    · rw [hself, hpc]
      trivial
    · have hholds : (state.threadPc self).permits = 1 := by rw [hpc]; rfl
      exact (hinv.knows thread).mono (hinv.permits_eq_zero hvalue hholds hself)
        (Int.le_of_lt (Int.lt_succ _))
  created_iff := hinv.created_iff
  joined := hinv.joined
  printed_eq := by
    intro result hresult
    have hrank := (hinv.semaphore_iff.mp (Option.isSome_iff_exists.mpr ⟨value, hvalue⟩)).2
    rw [(hinv.printed_eq result hresult).1] at hrank
    exact absurd hrank (by decide)

/-- The step of a thread that ends its increment. -/
theorem Invariant.store (hinv : Invariant limits state) {self : ThreadId} {value : ℤ}
    (hpc : state.threadPc self = .store value) :
    Invariant limits { state.goto self .semPost with
      sharedData := value + 1, increments := state.increments + 1 } := by
  have hknows := hinv.knows self
  rw [hpc] at hknows
  obtain ⟨rfl, hbelow⟩ := hknows
  obtain ⟨permits, hpermits⟩ := hinv.exists_semaphore hpc trivial
  have hmoved : Invariant limits (state.goto self .semPost) :=
    hinv.goto_of_permits_eq hpc trivial nofun rfl trivial
  exact hmoved.increment hpermits (Function.update_self _ _ _) hbelow

/-- A step of a thread keeps the invariant. -/
theorem invariant_threadBody (hinv : Invariant limits state) {self : ThreadId}
    (hstep : threadBody (limits.limit self) self state = some final) : Invariant limits final := by
  have hknows := hinv.knows self
  unfold threadBody at hstep
  cases hpc : state.threadPc self with
  | notCreated =>
    rw [hpc] at hstep
    cases hstep
  | semWait =>
    simp only [hpc] at hstep
    cases hvalue : state.semaphore with
    | none =>
      rw [hvalue] at hstep
      cases hstep
    | some value =>
      cases value with
      | zero =>
        rw [hvalue] at hstep
        cases hstep
      | succ value =>
        rw [hvalue] at hstep
        cases hstep
        exact hinv.goto hpc trivial nofun hvalue rfl trivial
  | exitCondition =>
    simp only [hpc] at hstep
    cases hstep
    by_cases hlimit : limits.limit self ≤ state.sharedData
    · rw [if_pos hlimit]
      exact hinv.goto_of_permits_eq hpc trivial nofun rfl hlimit
    · rw [if_neg hlimit]
      exact hinv.goto_of_permits_eq hpc trivial nofun rfl (Int.not_le.mp hlimit)
  | load =>
    simp only [hpc] at hstep
    cases hstep
    rw [hpc] at hknows
    exact hinv.goto_of_permits_eq hpc trivial nofun rfl ⟨rfl, hknows⟩
  | store value =>
    simp only [hpc] at hstep
    cases hstep
    exact hinv.store hpc
  | semPost =>
    obtain ⟨value, hvalue⟩ := hinv.exists_semaphore hpc trivial
    simp only [hpc, hvalue] at hstep
    cases hstep
    exact hinv.goto hpc trivial nofun hvalue rfl trivial
  | exitSemPost =>
    obtain ⟨value, hvalue⟩ := hinv.exists_semaphore hpc trivial
    simp only [hpc, hvalue] at hstep
    cases hstep
    rw [hpc] at hknows
    exact hinv.goto hpc trivial nofun hvalue rfl hknows
  | pthreadExit =>
    simp only [hpc] at hstep
    cases hstep
    rw [hpc] at hknows
    exact hinv.goto_of_permits_eq hpc trivial nofun rfl hknows
  | exited =>
    rw [hpc] at hstep
    cases hstep

/-- Before `main` prints, nothing is printed. -/
theorem Invariant.not_printed (hinv : Invariant limits state) (hmain : state.mainPc ≠ .finished)
    {value : ℤ} : state.printed ≠ some value :=
  fun hprinted ↦ hmain (hinv.printed_eq value hprinted).1

/-- `main` creates a thread. -/
theorem Invariant.create (hinv : Invariant limits state) {self : ThreadId} {pc : MainPc}
    (hbefore : state.mainPc.rank + 1 = self.createdAt) (hafter : pc.rank = self.createdAt) :
    Invariant limits { state.goto self .semWait with mainPc := pc } := by
  have hbounds : 1 ≤ state.mainPc.rank ∧ state.mainPc.rank ≤ 2 := by
    cases self <;> simp only [ThreadId.createdAt] at hbefore <;> omega
  have hnew : state.threadPc self = .notCreated := by
    by_contra hne
    have hcreated := (hinv.created_iff self).mp hne
    omega
  refine { hinv with
    one_permit := ?_, semaphore_iff := ?_, knows := ?_, created_iff := ?_, joined := ?_,
    printed_eq := ?_ }
  · intro value hvalue
    have hsum := holders_update state.threadPc self .semWait
    have hone := hinv.one_permit value hvalue
    rw [hnew] at hsum
    show value + holders (Function.update state.threadPc self .semWait) = 1
    simp only [ThreadPc.permits] at hsum
    omega
  · refine hinv.semaphore_iff.trans ?_
    show _ ↔ 1 ≤ pc.rank ∧ pc.rank ≤ 5
    omega
  · exact forall_update state.threadPc self .semWait
      (fun thread pc ↦ pc.Knows (limits.limit thread) state.sharedData) trivial
      fun thread _ ↦ hinv.knows thread
  · refine forall_update state.threadPc self .semWait
      (fun thread threadPc ↦ threadPc ≠ .notCreated ↔ thread.createdAt ≤ pc.rank)
      (iff_of_true nofun (Nat.le_of_eq hafter.symm)) fun thread hother ↦ ?_
    have hne : thread.createdAt ≠ self.createdAt := by
      cases thread <;> cases self <;> first | exact absurd rfl hother | decide
    rw [hinv.created_iff thread]
    omega
  · intro thread hrank
    have hlate : 4 ≤ thread.joinedAt := by cases thread <;> decide
    have hrank : thread.joinedAt ≤ pc.rank := hrank
    omega
  · intro value hvalue
    refine absurd hvalue (hinv.not_printed fun hmain ↦ ?_)
    rw [hmain] at hbounds
    exact absurd hbounds.2 (by decide)

/-- `main` returns from a join. -/
theorem Invariant.join (hinv : Invariant limits state) {self : ThreadId} {pc : MainPc}
    (hexited : state.threadPc self = .exited) (hbefore : state.mainPc.rank + 1 = self.joinedAt)
    (hafter : pc.rank = self.joinedAt) : Invariant limits { state with mainPc := pc } := by
  have hbounds : 3 ≤ state.mainPc.rank ∧ state.mainPc.rank ≤ 4 := by
    cases self <;> simp only [ThreadId.joinedAt] at hbefore <;> omega
  refine { hinv with semaphore_iff := ?_, created_iff := ?_, joined := ?_, printed_eq := ?_ }
  · refine hinv.semaphore_iff.trans ?_
    show _ ↔ 1 ≤ pc.rank ∧ pc.rank ≤ 5
    omega
  · intro thread
    refine (hinv.created_iff thread).trans ?_
    have hearly : thread.createdAt ≤ 3 := by cases thread <;> decide
    show _ ↔ thread.createdAt ≤ pc.rank
    omega
  · intro thread hrank
    have hrank : thread.joinedAt ≤ pc.rank := hrank
    by_cases hself : thread = self
    · rw [hself]
      exact hexited
    · have hne : thread.joinedAt ≠ self.joinedAt := by
        cases thread <;> cases self <;> first | exact absurd rfl hself | decide
      exact hinv.joined thread (by omega)
  · intro value hvalue
    refine absurd hvalue (hinv.not_printed fun hmain ↦ ?_)
    rw [hmain] at hbounds
    exact absurd hbounds.2 (by decide)

/-- `main` executes a statement of its own, before it creates a thread or after it has joined
both. -/
theorem Invariant.advance (hinv : Invariant limits state) {semaphore : Option ℕ} {pc : MainPc}
    {printed : Option ℤ}
    (hone : ∀ value, semaphore = some value → value + holders state.threadPc = 1)
    (hexists : semaphore.isSome ↔ 1 ≤ pc.rank ∧ pc.rank ≤ 5)
    (hrank : pc.rank ≤ 1 ∧ state.mainPc.rank ≤ 1 ∨ 5 ≤ state.mainPc.rank ∧ 5 ≤ pc.rank)
    (hprinted : ∀ value, printed = some value → pc = .finished ∧ value = state.sharedData) :
    Invariant limits { state with semaphore := semaphore, mainPc := pc, printed := printed } where
  one_permit := hone
  semaphore_iff := hexists
  sharedData_eq := hinv.sharedData_eq
  sharedData_le := hinv.sharedData_le
  knows := hinv.knows
  created_iff := by
    intro thread
    refine (hinv.created_iff thread).trans ?_
    cases thread <;> simp only [ThreadId.createdAt] <;> omega
  joined := by
    intro thread hjoined
    refine hinv.joined thread ?_
    cases thread <;> simp only [ThreadId.joinedAt] at hjoined ⊢ <;> omega
  printed_eq := hprinted

/-- A step of `main` keeps the invariant. -/
theorem invariant_main (hinv : Invariant limits state) (hstep : main state = some final) :
    Invariant limits final := by
  unfold main at hstep
  cases hmain : state.mainPc with
  | semInit =>
    simp only [hmain] at hstep
    cases hstep
    have hnone : ∀ thread, state.threadPc thread = .notCreated := by
      intro thread
      by_contra hne
      have hcreated := (hinv.created_iff thread).mp hne
      rw [hmain] at hcreated
      cases thread <;> exact absurd hcreated (by decide)
    refine hinv.advance ?_ (by decide) (by rw [hmain]; decide) fun value hvalue ↦ ?_
    · intro value hvalue
      cases hvalue
      rw [holders, hnone, hnone]
      rfl
    · exact absurd hvalue (hinv.not_printed (by rw [hmain]; exact nofun))
  | createT1 =>
    simp only [hmain] at hstep
    cases hstep
    exact hinv.create (by rw [hmain]; rfl) rfl
  | createT2 =>
    simp only [hmain] at hstep
    cases hstep
    exact hinv.create (by rw [hmain]; rfl) rfl
  | joinT1 =>
    simp only [hmain] at hstep
    split at hstep
    · rename_i hexited
      cases hstep
      exact hinv.join hexited (by rw [hmain]; rfl) rfl
    · cases hstep
  | joinT2 =>
    simp only [hmain] at hstep
    split at hstep
    · rename_i hexited
      cases hstep
      exact hinv.join hexited (by rw [hmain]; rfl) rfl
    · cases hstep
  | semDestroy =>
    simp only [hmain] at hstep
    cases hstep
    refine hinv.advance (fun _ hvalue ↦ (by cases hvalue)) (by decide) (by rw [hmain]; decide)
      fun value hvalue ↦ ?_
    exact absurd hvalue (hinv.not_printed (by rw [hmain]; exact nofun))
  | printf =>
    simp only [hmain] at hstep
    cases hstep
    refine hinv.advance hinv.one_permit ?_ (by rw [hmain]; decide) fun value hvalue ↦ ⟨rfl, ?_⟩
    · refine hinv.semaphore_iff.trans ?_
      rw [hmain]
      decide
    · cases hvalue
      rfl
  | finished =>
    simp only [hmain] at hstep
    cases hstep

theorem invariant_next (limits : Limits) (state : State) (actor : Actor) (final : State)
    (hstep : next limits state actor = some final) (hinv : Invariant limits state) :
    Invariant limits final := by
  cases actor with
  | thread self =>
    rw [next_thread] at hstep
    exact invariant_threadBody hinv hstep
  | main => exact invariant_main hinv hstep

/-! ### Progress -/

/-- A thread between its creation and its exit can go on, unless it waits for a permit that is
taken. -/
theorem Invariant.threadBody_ne_none (hinv : Invariant limits state) {self : ThreadId}
    {current : ThreadPc} (hpc : state.threadPc self = current) (hactive : current.Active)
    (hfree : current = .semWait → state.semaphore ≠ some 0) (limit : ℤ) :
    threadBody limit self state ≠ none := by
  obtain ⟨value, hvalue⟩ := hinv.exists_semaphore hpc hactive
  unfold threadBody
  cases current with
  | notCreated => exact hactive.elim
  | semWait =>
    cases value with
    | zero => exact absurd hvalue (hfree rfl)
    | succ value =>
      simp only [hpc, hvalue]
      exact nofun
  | exitCondition =>
    simp only [hpc]
    exact nofun
  | load =>
    simp only [hpc]
    exact nofun
  | store stored =>
    simp only [hpc]
    exact nofun
  | semPost =>
    simp only [hpc, hvalue]
    exact nofun
  | exitSemPost =>
    simp only [hpc, hvalue]
    exact nofun
  | pthreadExit =>
    simp only [hpc]
    exact nofun
  | exited => exact hactive.elim

/-- In a stuck state no thread is between its creation and its exit: if one waits for a permit, the
other has it, and goes on. -/
theorem Invariant.not_active (hinv : Invariant limits state) (hstuck : Stuck (next limits) state)
    (self : ThreadId) : ¬ (state.threadPc self).Active := by
  have hgoes : ∀ thread, (state.threadPc thread).Active →
      (state.threadPc thread = .semWait → state.semaphore ≠ some 0) → False := by
    intro thread hactive hfree
    refine hinv.threadBody_ne_none rfl hactive hfree (limits.limit thread) ?_
    rw [← next_thread]
    exact hstuck (.thread thread)
  have hholds : ∀ thread, (state.threadPc thread).permits = 0 := by
    intro thread
    by_contra hpermits
    cases hpc : state.threadPc thread <;> rw [hpc] at hpermits <;>
      first
      | exact hpermits rfl
      | exact hgoes thread (by rw [hpc]; trivial) (by rw [hpc]; exact nofun)
  intro hactive
  refine hgoes self hactive fun _ hzero ↦ ?_
  have hone := hinv.one_permit 0 hzero
  rw [holders, hholds, hholds] at hone
  cases hone

/-- Only the end of the program is stuck. -/
theorem Invariant.finished_of_stuck (hinv : Invariant limits state)
    (hstuck : Stuck (next limits) state) :
    (∀ thread, state.threadPc thread = .exited) ∧ state.mainPc = .finished := by
  have hexited : ∀ thread : ThreadId, thread.createdAt ≤ state.mainPc.rank →
      state.threadPc thread = .exited := by
    intro thread hcreated
    have hactive := hinv.not_active hstuck thread
    have hne := (hinv.created_iff thread).mpr hcreated
    cases hpc : state.threadPc thread <;> rw [hpc] at hactive hne <;>
      first
      | exact absurd rfl hne
      | exact absurd trivial hactive
  have hmain : main state = none := hstuck .main
  have hfinished : state.mainPc = .finished := by
    unfold main at hmain
    cases hpc : state.mainPc with
    | finished => rfl
    | joinT1 =>
      have ht1 := hexited .t1 (by rw [hpc]; decide)
      simp only [hpc, ht1] at hmain
      cases hmain
    | joinT2 =>
      have ht2 := hexited .t2 (by rw [hpc]; decide)
      simp only [hpc, ht2] at hmain
      cases hmain
    | semInit | createT1 | createT2 | semDestroy | printf =>
      simp only [hpc] at hmain
      cases hmain
  refine ⟨fun thread ↦ hexited thread ?_, hfinished⟩
  rw [hfinished]
  cases thread <;> decide

/-! ### The law along every interleaving -/

/-- After both joins both threads have found the data at their limits, and the data is at most the
larger one. -/
theorem Invariant.sharedData_of_joined (hinv : Invariant limits state)
    (hrank : 5 ≤ state.mainPc.rank) :
    state.sharedData = max (limits.limit .t1) (limits.limit .t2) := by
  have hlimit : ∀ thread, limits.limit thread ≤ state.sharedData := by
    intro thread
    have hknows := hinv.knows thread
    rwa [hinv.joined thread (by cases thread <;> simp only [ThreadId.joinedAt] <;> omega)] at hknows
  exact le_antisymm hinv.sharedData_le (max_le (hlimit .t1) (hlimit .t2))

theorem Invariant.law (hinv : Invariant limits state) : CounterLaw limits state where
  one_permit := hinv.one_permit
  semaphore_iff := hinv.semaphore_iff
  sharedData_eq := hinv.sharedData_eq
  sharedData_le := hinv.sharedData_le
  store_below := by
    intro thread value hpc
    have hknows := hinv.knows thread
    rwa [hpc] at hknows
  limit_le := by
    intro thread hpc
    have hknows := hinv.knows thread
    rcases hpc with hpc | hpc | hpc <;> rwa [hpc] at hknows
  not_stuck := hinv.finished_of_stuck
  sharedData_of_joined := hinv.sharedData_of_joined
  printed_eq := by
    intro value hvalue
    obtain ⟨hmain, rfl⟩ := hinv.printed_eq value hvalue
    exact hinv.sharedData_of_joined (by rw [hmain]; decide)

/-- A step of a thread leaves the data alone, or it is a store. -/
theorem Invariant.increments_threadBody (hinv : Invariant limits state) {self : ThreadId}
    (hstep : threadBody (limits.limit self) self state = some final) :
    (final.sharedData = state.sharedData ∧ final.increments = state.increments) ∨
      state.sharedData < limits.limit self ∧ final.sharedData = state.sharedData + 1 ∧
        final.increments = state.increments + 1 := by
  have hknows := hinv.knows self
  unfold threadBody at hstep
  cases hpc : state.threadPc self with
  | store value =>
    simp only [hpc] at hstep
    cases hstep
    rw [hpc] at hknows
    obtain ⟨rfl, hbelow⟩ := hknows
    exact Or.inr ⟨hbelow, rfl, rfl⟩
  | semWait =>
    simp only [hpc] at hstep
    split at hstep
    · cases hstep
      exact Or.inl ⟨rfl, rfl⟩
    · cases hstep
  | semPost | exitSemPost =>
    obtain ⟨value, hvalue⟩ := hinv.exists_semaphore hpc trivial
    simp only [hpc, hvalue] at hstep
    cases hstep
    exact Or.inl ⟨rfl, rfl⟩
  | exitCondition | load | pthreadExit =>
    simp only [hpc] at hstep
    cases hstep
    exact Or.inl ⟨rfl, rfl⟩
  | notCreated | exited =>
    rw [hpc] at hstep
    cases hstep

/-- A step of `main` leaves the data alone. -/
theorem increments_main (hstep : main state = some final) :
    final.sharedData = state.sharedData ∧ final.increments = state.increments := by
  unfold main at hstep
  split at hstep
  case h_4 | h_5 =>
    split at hstep
    · cases hstep
      exact ⟨rfl, rfl⟩
    · cases hstep
  case h_8 => cases hstep
  all_goals
    cases hstep
    exact ⟨rfl, rfl⟩

theorem Invariant.increments (hinv : Invariant limits state) (actor : Actor) :
    IncrementLaw limits state actor := by
  unfold IncrementLaw
  cases hnext : next limits state actor with
  | none =>
    rw [attempt_of_none hnext]
    exact Or.inl ⟨rfl, rfl⟩
  | some final =>
    rw [attempt_of_some hnext]
    cases actor with
    | main => exact Or.inl (increments_main hnext)
    | thread self =>
      rw [next_thread] at hnext
      rcases hinv.increments_threadBody hnext with hsame | hstored
      · exact Or.inl hsame
      · exact Or.inr ⟨self, rfl, hstored⟩

/-- For any positive limits and every interleaving of the threads and `main`: the law holds in every
state, and every change of the data is an increment below the limit of the thread that makes it. -/
theorem sharedCounter_law (limits : Limits) (schedule : List Actor) :
    CounterLaw limits (run (attempt (next limits)) State.initial schedule) ∧
      Along (attempt (next limits)) (IncrementLaw limits) State.initial schedule := by
  have hstart := invariant_initial limits
  constructor
  · exact (interleaving_invariant hstart (invariant_next limits) schedule).law
  · exact along_interleaving hstart (invariant_next limits)
      (fun state actor hinv ↦ hinv.increments actor) schedule

/-- The two programs end with 5 and with 100. -/
example (schedule : List Actor) :
    (∀ value, (run (attempt (next exp14)) State.initial schedule).printed = some value →
      value = 5) ∧
    ∀ value, (run (attempt (next exp32)) State.initial schedule).printed = some value →
      value = 100 := by
  have hlaw : ∀ limits, CounterLaw limits (run (attempt (next limits)) State.initial schedule) :=
    fun limits ↦
      (interleaving_invariant (invariant_initial limits) (invariant_next limits) schedule).law
  exact ⟨(hlaw exp14).printed_eq, (hlaw exp32).printed_eq⟩

end KernelExperiments.Threads
