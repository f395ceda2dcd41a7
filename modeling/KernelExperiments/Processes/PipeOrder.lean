import KernelExperiments.Foundation.Interleaving
import Mathlib.Data.List.Nodup
import Mathlib.Logic.Function.Basic

/-!
# The messages of `exp1.5.c` through the pipe

The parent forks two children. Each takes the lock of the pipe, writes 50 bytes that start with its
message, gives the lock back and exits. The parent waits for a child and reads 50 bytes, twice. The
comments name child 1 for the first `wait` and child 2 for the second, and the experiment asks for
the message of child 1 first.

`wait(0)` returns for whichever child has ended, and the lock orders nothing: it keeps the writes
apart, which they are anyway. What the parent reads is the blocks in the order of the writes
(`Invariant`). A `wait` that has returned leaves a whole block in the pipe, so no read is stuck, and
only the end of the parent is (`Invariant.finished_of_stuck`); but the reads return the blocks of
child 1 and child 2 in that order exactly if child 2 has not written first (`pipeOrder_iff`), and
nothing in the program keeps it from that (`not_inOrder_childTwoFirst`).

## Scope

Both forks succeed, and the lock is one that `lockf` takes and gives back. A write of 50 bytes is
atomic and finds room in the pipe. `outpipe` holds what the stack held where no statement has
written it. What the parent prints of `inpipe` is not modelled.
-/

set_option autoImplicit false
set_option relaxedAutoImplicit false

namespace KernelExperiments.Processes

open Foundation

/-! ### The program -/

/-- The children, under the names that `main` gives their process numbers. -/
inductive Child
  | p1
  | p2
  deriving DecidableEq

/-- The bytes of a text. -/
def chars (text : String) : List UInt8 := text.toList.map fun char ↦ char.toNat.toUInt8

/-- What a child writes. -/
def message : Child → List UInt8
  | .p1 => chars "child 1 process is sending message!"
  | .p2 => chars "child 2 process is sending message!"

/-- An array `char [100]`. -/
structure CharArray where
  bytes : List UInt8
  length_bytes : bytes.length = 100

theorem length_message_lt (child : Child) : (message child).length < 100 := by
  cases child <;> decide

/-- The array after `sprintf` has put the message of a child and its terminator into it. -/
def CharArray.sprintf (array : CharArray) (child : Child) : CharArray where
  bytes := message child ++ 0 :: array.bytes.drop ((message child).length + 1)
  length_bytes := by
    have hfit := length_message_lt child
    rw [List.length_append, List.length_cons, List.length_drop, array.length_bytes]
    omega

/-- The next statement of a child. -/
inductive ChildPc
  | notForked
  | lockf
  | sprintf
  | write
  | unlockf
  | exit
  | zombie
  | reaped

/-- The next statement of the parent. -/
inductive ParentPc
  | forkP1
  | forkP2
  | firstWait
  | firstRead
  | secondWait
  | secondRead
  | finished

/-- The state of the processes and the pipe. `received` holds what the reads have returned;
`writes` names the children in the order of their writes, and is not a variable of the program. -/
structure State where
  outpipe : Child → CharArray
  childPc : Child → ChildPc
  parentPc : ParentPc
  lock : Option Child
  pipe : List UInt8
  received : List (List UInt8)
  writes : List Child

/-- The state in which the parent has opened the pipe. A child is forked with the `outpipe` of the
parent, into which nothing is written. -/
def State.initial (outpipe : CharArray) : State where
  outpipe := fun _ ↦ outpipe
  childPc := fun _ ↦ .notForked
  parentPc := .forkP1
  lock := none
  pipe := []
  received := []
  writes := []

/-- The state with a child at another statement. -/
def State.goto (state : State) (self : Child) (pc : ChildPc) : State :=
  { state with childPc := Function.update state.childPc self pc }

/-- A step of a child. -/
def childBody (self : Child) (state : State) : Option State :=
  match state.childPc self with
  | .lockf =>
    if state.lock = none ∨ state.lock = some self then
      some { state.goto self .sprintf with lock := some self }
    else none
  | .sprintf =>
    some { state.goto self .write with
      outpipe := Function.update state.outpipe self ((state.outpipe self).sprintf self) }
  | .write =>
    some { state.goto self .unlockf with
      pipe := state.pipe ++ (state.outpipe self).bytes.take 50, writes := state.writes ++ [self] }
  | .unlockf =>
    some { state.goto self .exit with
      lock := if state.lock = some self then none else state.lock }
  | .exit => some (state.goto self .zombie)
  | .notForked | .zombie | .reaped => none

/-- A `wait` that returns for the child `ended`. -/
def wait (ended : Child) (following : ParentPc) (state : State) : Option State :=
  match state.childPc ended with
  | .zombie => some { state.goto ended .reaped with parentPc := following }
  | _ => none

/-- A `read` of 50 bytes. The parent holds the end for writing open, so an empty pipe blocks it. -/
def read (following : ParentPc) (state : State) : Option State :=
  match state.pipe with
  | [] => none
  | _ :: _ =>
    some { state with
      parentPc := following, pipe := state.pipe.drop 50,
      received := state.received ++ [state.pipe.take 50] }

/-- A step of the parent. If it is a `wait`, it is for the child `ended`. -/
def parent (ended : Child) (state : State) : Option State :=
  match state.parentPc with
  | .forkP1 => some { state.goto .p1 .lockf with parentPc := .forkP2 }
  | .forkP2 => some { state.goto .p2 .lockf with parentPc := .firstWait }
  | .firstWait => wait ended .firstRead state
  | .firstRead => read .secondWait state
  | .secondWait => wait ended .secondRead state
  | .secondRead => read .finished state
  | .finished => none

/-- The processes, which take turns. The parent's turn says for which child its `wait` returns. -/
inductive Actor
  | child (self : Child)
  | parent (ended : Child)

/-- A step of a process. -/
def next (state : State) : Actor → Option State
  | .child self => childBody self state
  | .parent ended => parent ended state

/-! ### The law -/

/-- The 50 bytes that a child writes. -/
def block (outpipe : CharArray) (child : Child) : List UInt8 :=
  (outpipe.sprintf child).bytes.take 50

/-- The parent is not at a read of an empty pipe. -/
def ReadsGoOn (state : State) : Prop :=
  state.parentPc = .firstRead ∨ state.parentPc = .secondRead → state.pipe ≠ []

/-- The first read has returned the block of child 1, and the second the block of child 2, as far as
they have returned. -/
def InOrder (outpipe : CharArray) (state : State) : Prop :=
  state.received <+: [block outpipe .p1, block outpipe .p2]

/-- A write by child 2 comes after the write by child 1. -/
def ChildOneFirst (state : State) (actor : Actor) : Prop :=
  actor = .child .p2 → state.childPc .p2 = .write → .p1 ∈ state.writes

/-! ### The invariant -/

/-- The child has written. -/
def ChildPc.Written : ChildPc → Prop
  | .unlockf | .exit | .zombie | .reaped => True
  | .notForked | .lockf | .sprintf | .write => False

/-- The child has the lock. -/
def ChildPc.Locked : ChildPc → Prop
  | .sprintf | .write | .unlockf => True
  | .notForked | .lockf | .exit | .zombie | .reaped => False

/-- What a child has in its array, until it has written it. -/
def ChildPc.Holds (outpipe : CharArray) (self : Child) (array : CharArray) : ChildPc → Prop
  | .notForked | .lockf | .sprintf => array = outpipe
  | .write => array = outpipe.sprintf self
  | .unlockf | .exit | .zombie | .reaped => True

/-- One for a child for which a `wait` has returned. -/
def ChildPc.reaps : ChildPc → ℕ
  | .reaped => 1
  | _ => 0

/-- The number of children for which a `wait` has returned. -/
def reaped (childPc : Child → ChildPc) : ℕ := (childPc .p1).reaps + (childPc .p2).reaps

/-- The number of calls of `wait` that have returned. -/
def ParentPc.waits : ParentPc → ℕ
  | .forkP1 | .forkP2 | .firstWait => 0
  | .firstRead | .secondWait => 1
  | .secondRead | .finished => 2

/-- The number of calls of `read` that have returned. -/
def ParentPc.reads : ParentPc → ℕ
  | .forkP1 | .forkP2 | .firstWait | .firstRead => 0
  | .secondWait | .secondRead => 1
  | .finished => 2

/-- The parent has forked the child. -/
def ParentPc.Forked : ParentPc → Child → Prop
  | .forkP1, _ => False
  | .forkP2, child => child = .p1
  | _, _ => True

/-- What has been written is the blocks of the children in the order of their writes. The reads have
returned the first of them, one each, and the others are in the pipe; and every `wait` has returned
for a child that has written. -/
structure Invariant (outpipe : CharArray) (state : State) : Prop where
  holds : ∀ self, (state.childPc self).Holds outpipe self (state.outpipe self)
  forked_iff : ∀ self, state.childPc self ≠ .notForked ↔ state.parentPc.Forked self
  lock_iff : ∀ self, state.lock = some self ↔ (state.childPc self).Locked
  nodup : state.writes.Nodup
  mem_writes : ∀ self, self ∈ state.writes ↔ (state.childPc self).Written
  reaped_eq : reaped state.childPc = state.parentPc.waits
  reads_le : state.parentPc.reads ≤ state.writes.length
  received_eq : state.received = (state.writes.take state.parentPc.reads).map (block outpipe)
  pipe_eq : state.pipe = ((state.writes.drop state.parentPc.reads).map (block outpipe)).flatten

variable {outpipe : CharArray} {state final : State}

theorem length_block (outpipe : CharArray) (child : Child) : (block outpipe child).length = 50 := by
  rw [block, List.length_take, (outpipe.sprintf child).length_bytes]
  rfl

/-- The blocks of the children differ. -/
theorem block_injective (outpipe : CharArray) : Function.Injective (block outpipe) := by
  have hne : block outpipe .p1 ≠ block outpipe .p2 := by
    intro heq
    have htake : ∀ child, (block outpipe child).take 7 = (message child).take 7 := by
      intro child
      have hlength : 7 ≤ (message child).length := by cases child <;> decide
      rw [block, List.take_take]
      exact List.take_append_of_le_length hlength
    have htexts : (message .p1).take 7 = (message .p2).take 7 := by rw [← htake, heq, htake]
    exact absurd htexts (by decide)
  intro first second heq
  cases first <;> cases second
  · rfl
  · exact absurd heq hne
  · exact absurd heq.symm hne
  · rfl

/-- The reaped children after one child has moved. -/
theorem reaped_update (childPc : Child → ChildPc) (self : Child) (pc : ChildPc) :
    reaped (Function.update childPc self pc) + (childPc self).reaps =
      reaped childPc + pc.reaps := by
  have hne : Child.p1 ≠ Child.p2 := by decide
  have hself : self = .p1 ∨ self = .p2 := by cases self <;> decide
  exact add_update hne ChildPc.reaps childPc hself pc

theorem invariant_initial (outpipe : CharArray) : Invariant outpipe (State.initial outpipe) where
  holds := fun _ ↦ rfl
  forked_iff := fun _ ↦ iff_of_false (fun hne ↦ hne rfl) id
  lock_iff := fun _ ↦ iff_of_false nofun id
  nodup := List.nodup_nil
  mem_writes := fun _ ↦ iff_of_false List.not_mem_nil id
  reaped_eq := rfl
  reads_le := Nat.le_refl 0
  received_eq := rfl
  pipe_eq := rfl

/-- A child that moves without a write, by itself or in a fork or a `wait`, keeps the invariant: it
has in its array what its statement requires, and the parent has forked it and waited for it as the
parent's statement says. -/
theorem Invariant.goto (hinv : Invariant outpipe state) {self : Child} {current pc : ChildPc}
    {parentPc : ParentPc} {lock : Option Child} {outpipes : Child → CharArray}
    (hpc : state.childPc self = current) (hwritten : pc.Written ↔ current.Written)
    (hforked : pc ≠ .notForked ↔ parentPc.Forked self)
    (hothersForked : ∀ other, other ≠ self →
      (parentPc.Forked other ↔ state.parentPc.Forked other))
    (hwaits : state.parentPc.waits + pc.reaps = parentPc.waits + current.reaps)
    (hreads : parentPc.reads = state.parentPc.reads)
    (hlock : ∀ other, lock = some other ↔ ((state.goto self pc).childPc other).Locked)
    (hholds : pc.Holds outpipe self (outpipes self))
    (hothers : ∀ other, other ≠ self → outpipes other = state.outpipe other) :
    Invariant outpipe { state.goto self pc with
      parentPc := parentPc, lock := lock, outpipe := outpipes } where
  holds := by
    refine forall_update state.childPc self pc
      (fun child pc ↦ pc.Holds outpipe child (outpipes child)) hholds fun other hne ↦ ?_
    rw [hothers other hne]
    exact hinv.holds other
  forked_iff := by
    refine forall_update state.childPc self pc
      (fun child childPc ↦ childPc ≠ .notForked ↔ parentPc.Forked child) hforked
      fun other hne ↦ ?_
    rw [hothersForked other hne]
    exact hinv.forked_iff other
  lock_iff := hlock
  nodup := hinv.nodup
  mem_writes := by
    refine forall_update state.childPc self pc (fun child pc ↦ child ∈ state.writes ↔ pc.Written)
      ?_ fun other _ ↦ hinv.mem_writes other
    rw [hwritten, ← hpc]
    exact hinv.mem_writes self
  reaped_eq := by
    have hsum := reaped_update state.childPc self pc
    have hreaped := hinv.reaped_eq
    rw [hpc] at hsum
    show reaped (Function.update state.childPc self pc) = parentPc.waits
    omega
  reads_le := hreads ▸ hinv.reads_le
  received_eq := hreads ▸ hinv.received_eq
  pipe_eq := hreads ▸ hinv.pipe_eq

/-- A child that moves and keeps the lock, or keeps being without it. -/
theorem Invariant.lock_goto (hinv : Invariant outpipe state) {self : Child}
    {current pc : ChildPc} (hpc : state.childPc self = current)
    (hlocked : current.Locked ↔ pc.Locked) :
    ∀ other, state.lock = some other ↔ ((state.goto self pc).childPc other).Locked := by
  refine forall_update state.childPc self pc (fun child pc ↦ state.lock = some child ↔ pc.Locked)
    ?_ fun other _ ↦ hinv.lock_iff other
  rw [← hlocked, ← hpc]
  exact hinv.lock_iff self

/-- A step of a child that does not write. -/
theorem Invariant.childStep (hinv : Invariant outpipe state) {self : Child}
    {current pc : ChildPc} {lock : Option Child} {outpipes : Child → CharArray}
    (hpc : state.childPc self = current) (hwritten : pc.Written ↔ current.Written)
    (hcurrent : current ≠ .notForked) (hforked : pc ≠ .notForked)
    (hreaps : pc.reaps = current.reaps)
    (hlock : ∀ other, lock = some other ↔ ((state.goto self pc).childPc other).Locked)
    (hholds : pc.Holds outpipe self (outpipes self))
    (hothers : ∀ other, other ≠ self → outpipes other = state.outpipe other) :
    Invariant outpipe { state.goto self pc with lock := lock, outpipe := outpipes } := by
  refine hinv.goto hpc hwritten ?_ (fun _ _ ↦ Iff.rfl) (by rw [hreaps]; rfl) rfl hlock hholds
    hothers
  exact iff_of_true hforked ((hinv.forked_iff self).mp (hpc ▸ hcurrent))

/-- The write of a child. -/
theorem Invariant.write (hinv : Invariant outpipe state) {self : Child}
    (hpc : state.childPc self = .write) :
    Invariant outpipe { state.goto self .unlockf with
      pipe := state.pipe ++ (state.outpipe self).bytes.take 50,
      writes := state.writes ++ [self] } := by
  have hholds := hinv.holds self
  rw [hpc] at hholds
  have hblock : (state.outpipe self).bytes.take 50 = block outpipe self := by
    rw [show state.outpipe self = _ from hholds]
    rfl
  have hnew : self ∉ state.writes := by
    rw [hinv.mem_writes, hpc]
    exact id
  refine { hinv with
    holds := ?_, forked_iff := ?_, lock_iff := ?_, nodup := ?_, mem_writes := ?_, reaped_eq := ?_,
    reads_le := ?_, received_eq := ?_, pipe_eq := ?_ }
  · exact forall_update state.childPc self .unlockf
      (fun child pc ↦ pc.Holds outpipe child (state.outpipe child)) trivial fun other _ ↦
        hinv.holds other
  · refine forall_update state.childPc self .unlockf
      (fun child pc ↦ pc ≠ .notForked ↔ state.parentPc.Forked child) ?_ fun other _ ↦
        hinv.forked_iff other
    exact iff_of_true nofun ((hinv.forked_iff self).mp (by rw [hpc]; exact nofun))
  · exact hinv.lock_goto hpc Iff.rfl
  · exact List.nodup_append.mpr ⟨hinv.nodup, List.nodup_singleton self, by
      rintro child hchild _ hsingle rfl
      rw [List.mem_singleton.mp hsingle] at hchild
      exact hnew hchild⟩
  · refine forall_update state.childPc self .unlockf
      (fun child pc ↦ child ∈ state.writes ++ [self] ↔ pc.Written) ?_ fun other hne ↦ ?_
    · exact iff_of_true (List.mem_append_right _ (List.mem_singleton.mpr rfl)) trivial
    · rw [← hinv.mem_writes other, List.mem_append, List.mem_singleton]
      exact or_iff_left hne
  · have hsum := reaped_update state.childPc self .unlockf
    have hwaits := hinv.reaped_eq
    rw [hpc] at hsum
    show reaped (Function.update state.childPc self .unlockf) = state.parentPc.waits
    exact hsum.trans hwaits
  · refine Nat.le_trans hinv.reads_le ?_
    rw [List.length_append]
    exact Nat.le_add_right _ _
  · show state.received = ((state.writes ++ [self]).take state.parentPc.reads).map (block outpipe)
    rw [List.take_append_of_le_length hinv.reads_le]
    exact hinv.received_eq
  · show state.pipe ++ _ =
      (((state.writes ++ [self]).drop state.parentPc.reads).map (block outpipe)).flatten
    rw [hblock, List.drop_append_of_le_length hinv.reads_le, List.map_append, List.flatten_append,
      ← hinv.pipe_eq]
    exact congrArg _ (List.append_nil _).symm

/-- A step of a child keeps the invariant. -/
theorem invariant_childBody (hinv : Invariant outpipe state) {self : Child}
    (hstep : childBody self state = some final) : Invariant outpipe final := by
  have hlocks := hinv.lock_iff
  have hholds := hinv.holds self
  unfold childBody at hstep
  cases hpc : state.childPc self with
  | notForked | zombie | reaped =>
    rw [hpc] at hstep
    cases hstep
  | lockf =>
    simp only [hpc] at hstep
    split at hstep
    · rename_i hfree
      cases hstep
      rw [hpc] at hholds
      refine hinv.childStep hpc Iff.rfl nofun nofun rfl ?_ hholds fun _ _ ↦ rfl
      refine forall_update state.childPc self .sprintf
        (fun child pc ↦ some self = some child ↔ pc.Locked) (iff_of_true rfl trivial)
        fun other hne ↦ ?_
      rw [← hlocks other]
      refine iff_of_false (fun heq ↦ hne (Option.some.inj heq).symm) fun hother ↦ ?_
      rw [hother] at hfree
      rcases hfree with hnone | hself
      · cases hnone
      · exact hne (Option.some.inj hself)
    · cases hstep
  | sprintf =>
    simp only [hpc] at hstep
    cases hstep
    refine hinv.childStep hpc Iff.rfl nofun nofun rfl (hinv.lock_goto hpc Iff.rfl) ?_
      fun other hne ↦ Function.update_of_ne hne _ _
    rw [hpc] at hholds
    rw [Function.update_self, show state.outpipe self = _ from hholds]
    rfl
  | write =>
    simp only [hpc] at hstep
    cases hstep
    exact hinv.write hpc
  | unlockf =>
    have hlock : state.lock = some self := (hlocks self).mpr (by rw [hpc]; trivial)
    simp only [hpc, if_pos hlock] at hstep
    cases hstep
    refine hinv.childStep hpc Iff.rfl nofun nofun rfl ?_ trivial fun _ _ ↦ rfl
    refine forall_update state.childPc self .exit (fun child pc ↦ none = some child ↔ pc.Locked)
      (iff_of_false nofun id) fun other hne ↦ ?_
    rw [← hlocks other, hlock]
    exact iff_of_false nofun fun heq ↦ hne (Option.some.inj heq).symm
  | exit =>
    simp only [hpc] at hstep
    cases hstep
    exact hinv.childStep hpc Iff.rfl nofun nofun rfl (hinv.lock_goto hpc Iff.rfl) trivial
      fun _ _ ↦ rfl

/-- A fork keeps the invariant. -/
theorem Invariant.fork (hinv : Invariant outpipe state) {self : Child} {pc : ParentPc}
    (hbefore : ¬ state.parentPc.Forked self)
    (hafter : ∀ child, pc.Forked child ↔ child = self ∨ state.parentPc.Forked child)
    (hwaits : pc.waits = state.parentPc.waits) (hreads : pc.reads = state.parentPc.reads) :
    Invariant outpipe { state.goto self .lockf with parentPc := pc } := by
  have hnew : state.childPc self = .notForked := by
    by_contra hne
    exact hbefore ((hinv.forked_iff self).mp hne)
  have hholds := hinv.holds self
  rw [hnew] at hholds
  refine hinv.goto hnew Iff.rfl ?_ (fun other hne ↦ ?_) (by rw [hwaits]; rfl) hreads
    (hinv.lock_goto hnew Iff.rfl) hholds fun _ _ ↦ rfl
  · exact iff_of_true nofun ((hafter self).mpr (Or.inl rfl))
  · rw [hafter, or_iff_right hne]

/-- A `wait` that returns keeps the invariant. -/
theorem Invariant.wait (hinv : Invariant outpipe state) {ended : Child} {pc : ParentPc}
    (hpc : state.childPc ended = .zombie)
    (hforked : ∀ child, pc.Forked child ↔ state.parentPc.Forked child)
    (hwaits : pc.waits = state.parentPc.waits + 1) (hreads : pc.reads = state.parentPc.reads) :
    Invariant outpipe { state.goto ended .reaped with parentPc := pc } := by
  refine hinv.goto hpc Iff.rfl ?_ (fun other _ ↦ hforked other) (by rw [hwaits]; rfl) hreads
    (hinv.lock_goto hpc Iff.rfl) trivial fun _ _ ↦ rfl
  rw [hforked, ← hinv.forked_iff, hpc]
  exact iff_of_true nofun nofun

/-- A `read` that returns keeps the invariant: it takes one block. -/
theorem Invariant.read (hinv : Invariant outpipe state) {pc : ParentPc} (hne : state.pipe ≠ [])
    (hforked : ∀ child, pc.Forked child ↔ state.parentPc.Forked child)
    (hwaits : pc.waits = state.parentPc.waits) (hreads : pc.reads = state.parentPc.reads + 1) :
    Invariant outpipe { state with
      parentPc := pc, pipe := state.pipe.drop 50,
      received := state.received ++ [state.pipe.take 50] } := by
  have hpipe := hinv.pipe_eq
  have hlt : state.parentPc.reads < state.writes.length := by
    by_contra hle
    rw [List.drop_eq_nil_of_le (Nat.not_lt.mp hle)] at hpipe
    exact hne hpipe
  rw [List.drop_eq_getElem_cons hlt, List.map_cons, List.flatten_cons] at hpipe
  refine { hinv with
    forked_iff := ?_, reaped_eq := ?_, reads_le := ?_, received_eq := ?_, pipe_eq := ?_ }
  · intro child
    rw [hforked]
    exact hinv.forked_iff child
  · exact hinv.reaped_eq.trans hwaits.symm
  · show pc.reads ≤ _
    rw [hreads]
    exact hlt
  · show state.received ++ [state.pipe.take 50] = (state.writes.take pc.reads).map (block outpipe)
    rw [hreads, ← List.take_append_getElem hlt, List.map_append, hpipe,
      List.take_left' (length_block outpipe _), ← hinv.received_eq]
    rfl
  · show state.pipe.drop 50 = ((state.writes.drop pc.reads).map (block outpipe)).flatten
    rw [hreads, hpipe, List.drop_left' (length_block outpipe _)]

/-- A step of the parent keeps the invariant. -/
theorem invariant_parent (hinv : Invariant outpipe state) {ended : Child}
    (hstep : parent ended state = some final) : Invariant outpipe final := by
  have hwait : ∀ pc, wait ended pc state = some final →
      (∀ child, pc.Forked child ↔ state.parentPc.Forked child) →
        pc.waits = state.parentPc.waits + 1 → pc.reads = state.parentPc.reads →
          Invariant outpipe final := by
    intro pc hwait hforked hwaits hreads
    unfold wait at hwait
    split at hwait
    · rename_i hzombie
      cases hwait
      exact hinv.wait hzombie hforked hwaits hreads
    · cases hwait
  have hread : ∀ pc, read pc state = some final →
      (∀ child, pc.Forked child ↔ state.parentPc.Forked child) →
        pc.waits = state.parentPc.waits → pc.reads = state.parentPc.reads + 1 →
          Invariant outpipe final := by
    intro pc hread hforked hwaits hreads
    unfold read at hread
    split at hread
    · cases hread
    · rename_i hpipe
      cases hread
      exact hinv.read (by rw [hpipe]; exact nofun) hforked hwaits hreads
  unfold parent at hstep
  cases hpc : state.parentPc with
  | forkP1 =>
    simp only [hpc] at hstep
    cases hstep
    refine hinv.fork ?_ ?_ ?_ ?_ <;> rw [hpc]
    · exact id
    · exact fun child ↦ (or_iff_left id).symm
    · rfl
    · rfl
  | forkP2 =>
    simp only [hpc] at hstep
    cases hstep
    refine hinv.fork ?_ ?_ ?_ ?_ <;> rw [hpc]
    · exact nofun
    · rintro (_ | _)
      · exact iff_of_true trivial (Or.inr rfl)
      · exact iff_of_true trivial (Or.inl rfl)
    · rfl
    · rfl
  | firstWait | secondWait =>
    simp only [hpc] at hstep
    refine hwait _ hstep ?_ ?_ ?_ <;> rw [hpc]
    · exact fun _ ↦ Iff.rfl
    · rfl
    · rfl
  | firstRead | secondRead =>
    simp only [hpc] at hstep
    refine hread _ hstep ?_ ?_ ?_ <;> rw [hpc]
    · exact fun _ ↦ Iff.rfl
    · rfl
    · rfl
  | finished =>
    simp only [hpc] at hstep
    cases hstep

theorem invariant_next (outpipe : CharArray) (state : State) (actor : Actor) (final : State)
    (hstep : next state actor = some final) (hinv : Invariant outpipe state) :
    Invariant outpipe final := by
  cases actor with
  | child self => exact invariant_childBody hinv hstep
  | parent ended => exact invariant_parent hinv hstep

/-! ### Progress -/

theorem count_add_count (writes : List Child) :
    writes.count .p1 + writes.count .p2 = writes.length := by
  induction writes with
  | nil => rfl
  | cons child rest ih =>
    rw [List.count_cons, List.count_cons, List.length_cons, ← ih]
    cases child
    · rw [if_pos (by decide), if_neg (by decide)]
      omega
    · rw [if_neg (by decide), if_pos (by decide)]
      omega

/-- A `wait` that has returned leaves a write behind. -/
theorem Invariant.waits_le (hinv : Invariant outpipe state) :
    state.parentPc.waits ≤ state.writes.length := by
  have hreaps : ∀ child, (state.childPc child).reaps ≤ state.writes.count child := by
    intro child
    have hmem := hinv.mem_writes child
    cases hpc : state.childPc child with
    | reaped =>
      rw [hpc] at hmem
      exact List.count_pos_iff.mpr (hmem.mpr trivial)
    | notForked | lockf | sprintf | write | unlockf | exit | zombie => exact Nat.zero_le _
  have hfirst := hreaps .p1
  have hsecond := hreaps .p2
  rw [← hinv.reaped_eq, ← count_add_count, reaped]
  omega

/-- The pipe holds a block for every `wait` that has returned and is not followed by its `read`. -/
theorem Invariant.readsGoOn (hinv : Invariant outpipe state) : ReadsGoOn state := by
  intro hreads hempty
  have hwaits := hinv.waits_le
  have hlt : state.parentPc.reads < state.parentPc.waits := by
    rcases hreads with hpc | hpc <;> rw [hpc] <;> decide
  have hpipe := hinv.pipe_eq
  rw [List.drop_eq_getElem_cons (Nat.lt_of_lt_of_le hlt hwaits), List.map_cons, List.flatten_cons,
    hempty] at hpipe
  have hlength := congrArg List.length hpipe
  rw [List.length_append, length_block, List.length_nil] at hlength
  omega

/-- A child is between its fork and its end. -/
def ChildPc.Running : ChildPc → Prop
  | .notForked | .zombie | .reaped => False
  | .lockf | .sprintf | .write | .unlockf | .exit => True

/-- A running child can go on, unless it waits for the lock and another has it. -/
theorem childBody_ne_none {self : Child} (hrunning : (state.childPc self).Running)
    (hfree : state.childPc self = .lockf → state.lock = none ∨ state.lock = some self) :
    childBody self state ≠ none := by
  unfold childBody
  cases hpc : state.childPc self with
  | notForked | zombie | reaped =>
    rw [hpc] at hrunning
    exact hrunning.elim
  | lockf =>
    simp only [if_pos (hfree hpc)]
    exact nofun
  | sprintf | write | unlockf | exit => exact nofun

/-- In a stuck state no child is running: if one waits for the lock, the other has it, and goes
on. -/
theorem Invariant.not_running (hinv : Invariant outpipe state) (hstuck : Stuck next state)
    (self : Child) : ¬ (state.childPc self).Running := by
  intro hrunning
  refine childBody_ne_none hrunning (fun hwaits ↦ ?_) (hstuck (.child self))
  cases hlock : state.lock with
  | none => exact Or.inl rfl
  | some holder =>
    have hlocked := (hinv.lock_iff holder).mp hlock
    refine absurd (hstuck (.child holder)) (childBody_ne_none ?_ fun hlockf ↦ ?_)
    · cases hpc : state.childPc holder <;> rw [hpc] at hlocked <;> trivial
    · rw [hlockf] at hlocked
      cases hlocked

theorem wait_ne_none {ended : Child} (hzombie : state.childPc ended = .zombie)
    (following : ParentPc) : wait ended following state ≠ none := by
  unfold wait
  rw [hzombie]
  exact nofun

theorem read_ne_none (hpipe : state.pipe ≠ []) (following : ParentPc) :
    read following state ≠ none := by
  unfold read
  cases hbytes : state.pipe with
  | nil => exact absurd hbytes hpipe
  | cons byte rest => exact nofun

/-- Only the end of the parent is stuck. -/
theorem Invariant.finished_of_stuck (hinv : Invariant outpipe state) (hstuck : Stuck next state) :
    state.parentPc = .finished := by
  have hparent : ∀ ended, parent ended state = none := fun ended ↦ hstuck (.parent ended)
  have hended : (∀ child, state.parentPc.Forked child) → ∀ child, state.childPc child = .zombie ∨
      state.childPc child = .reaped := by
    intro hforked child
    have hnew := (hinv.forked_iff child).mpr (hforked child)
    have hnot := hinv.not_running hstuck child
    cases hpc : state.childPc child <;> rw [hpc] at hnew hnot <;>
      first
      | exact Or.inl rfl
      | exact Or.inr rfl
      | exact absurd rfl hnew
      | exact absurd trivial hnot
  have hzombie : state.parentPc.waits < 2 → (∀ child, state.parentPc.Forked child) →
      ∃ child, state.childPc child = .zombie := by
    intro hwaits hforked
    have hreaped := hinv.reaped_eq
    rcases hended hforked .p1 with hfirst | hfirst
    · exact ⟨.p1, hfirst⟩
    · rcases hended hforked .p2 with hsecond | hsecond
      · exact ⟨.p2, hsecond⟩
      · rw [← hreaped, reaped, hfirst, hsecond] at hwaits
        exact absurd hwaits (by decide)
  unfold parent at hparent
  cases hpc : state.parentPc with
  | finished => rfl
  | forkP1 | forkP2 =>
    simp only [hpc] at hparent
    cases hparent .p1
  | firstWait | secondWait =>
    obtain ⟨child, hchild⟩ := hzombie (by rw [hpc]; decide) (by rw [hpc]; exact fun _ ↦ trivial)
    have hnone := hparent child
    simp only [hpc] at hnone
    exact absurd hnone (wait_ne_none hchild _)
  | firstRead | secondRead =>
    have hnone := hparent .p1
    simp only [hpc] at hnone
    exact absurd hnone (read_ne_none (hinv.readsGoOn (by simp only [hpc, true_or, or_true])) _)

/-! ### The order of the blocks -/

theorem writes_childBody {self : Child} (hstep : childBody self state = some final) :
    (state.childPc self ≠ .write ∧ final.writes = state.writes) ∨
      state.childPc self = .write ∧ final.writes = state.writes ++ [self] := by
  unfold childBody at hstep
  cases hpc : state.childPc self with
  | write =>
    simp only [hpc] at hstep
    cases hstep
    exact Or.inr ⟨rfl, rfl⟩
  | lockf =>
    simp only [hpc] at hstep
    split at hstep
    · cases hstep
      exact Or.inl ⟨nofun, rfl⟩
    · cases hstep
  | sprintf | unlockf | exit =>
    simp only [hpc] at hstep
    cases hstep
    exact Or.inl ⟨nofun, rfl⟩
  | notForked | zombie | reaped =>
    rw [hpc] at hstep
    cases hstep

theorem writes_parent {ended : Child} (hstep : parent ended state = some final) :
    final.writes = state.writes := by
  have hwait : ∀ pc, wait ended pc state = some final → final.writes = state.writes := by
    intro pc hwait
    unfold wait at hwait
    split at hwait
    · cases hwait
      rfl
    · cases hwait
  have hread : ∀ pc, read pc state = some final → final.writes = state.writes := by
    intro pc hread
    unfold read at hread
    split at hread
    · cases hread
    · cases hread
      rfl
  unfold parent at hstep
  cases hpc : state.parentPc with
  | forkP1 | forkP2 =>
    simp only [hpc] at hstep
    cases hstep
    rfl
  | firstWait | secondWait =>
    simp only [hpc] at hstep
    exact hwait _ hstep
  | firstRead | secondRead =>
    simp only [hpc] at hstep
    exact hread _ hstep
  | finished =>
    simp only [hpc] at hstep
    cases hstep

/-- A turn writes if it is the turn of a child at its write, and otherwise not. -/
theorem writes_attempt (state : State) (actor : Actor) :
    ((∀ self, actor = .child self → state.childPc self ≠ .write) ∧
      (attempt next state actor).writes = state.writes) ∨
    ∃ self, actor = .child self ∧ state.childPc self = .write ∧
      (attempt next state actor).writes = state.writes ++ [self] := by
  cases hnext : next state actor with
  | none =>
    rw [attempt_of_none hnext]
    refine Or.inl ⟨?_, rfl⟩
    rintro self rfl hwrite
    have hrunning : (state.childPc self).Running := by
      rw [hwrite]
      trivial
    exact childBody_ne_none hrunning (by rw [hwrite]; exact nofun) hnext
  | some final =>
    rw [attempt_of_some hnext]
    cases actor with
    | parent ended => exact Or.inl ⟨nofun, writes_parent hnext⟩
    | child self =>
      rcases writes_childBody hnext with ⟨hpc, hsame⟩ | hwrite
      · refine Or.inl ⟨?_, hsame⟩
        rintro _ hself
        cases hself
        exact hpc
      · exact Or.inr ⟨self, rfl, hwrite⟩

/-- Until child 2 has written first, a turn is not a write by child 2 before the write by child 1
exactly if after it child 2 has not written first. -/
theorem childOneFirst_iff {actor : Actor} (hhead : state.writes.head? ≠ some .p2) :
    ChildOneFirst state actor ↔ (attempt next state actor).writes.head? ≠ some .p2 := by
  rcases writes_attempt state actor with ⟨hnot, hsame⟩ | ⟨self, rfl, hwrite, happend⟩
  · rw [hsame]
    exact iff_of_true (fun hactor hwrite ↦ absurd hwrite (hnot _ hactor)) hhead
  · rw [happend]
    cases hwrites : state.writes with
    | nil =>
      cases self with
      | p1 => exact iff_of_true nofun nofun
      | p2 =>
        refine iff_of_false (fun hchild ↦ ?_) fun hne ↦ hne rfl
        have hmem := hchild rfl hwrite
        rw [hwrites] at hmem
        cases hmem
    | cons first others =>
      rw [hwrites] at hhead
      have hone : first = .p1 := by
        cases first with
        | p1 => rfl
        | p2 => exact absurd rfl hhead
      refine iff_of_true (fun _ _ ↦ ?_) hhead
      rw [hwrites, hone]
      exact List.mem_cons_self

/-- No write of child 2 comes before the write of child 1 exactly if in the end child 2 has not
written first. -/
theorem along_childOneFirst_iff (outpipe : CharArray) (schedule : List Actor) :
    Along (attempt next) ChildOneFirst (State.initial outpipe) schedule ↔
      (run (attempt next) (State.initial outpipe) schedule).writes.head? ≠ some .p2 := by
  have hlost : ∀ (state : State) (actor : Actor), ¬ state.writes.head? ≠ some .p2 →
      ¬ (attempt next state actor).writes.head? ≠ some .p2 := by
    intro state actor hhead
    rw [not_not] at hhead ⊢
    rcases writes_attempt state actor with ⟨-, hsame⟩ | ⟨self, -, -, happend⟩
    · rwa [hsame]
    · rw [happend, List.head?_append, hhead]
      rfl
  have hiff : ∀ (state : State) (actor : Actor), state.writes.head? ≠ some .p2 →
      (ChildOneFirst state actor ↔ (attempt next state actor).writes.head? ≠ some .p2) :=
    fun _ _ hhead ↦ childOneFirst_iff hhead
  have hstart : (State.initial outpipe).writes.head? ≠ some .p2 := nofun
  exact along_iff_run hiff hlost hstart schedule

/-- The writes in the order of their names, when there is no other child. -/
theorem writes_in_order {writes : List Child} (hnodup : writes.Nodup)
    (hhead : writes.head? ≠ some .p2) : writes <+: [.p1, .p2] := by
  cases writes with
  | nil => exact List.nil_prefix
  | cons first others =>
    obtain ⟨hnew, hothers⟩ := List.nodup_cons.mp hnodup
    cases first with
    | p2 => exact absurd rfl hhead
    | p1 =>
      refine List.cons_prefix_cons.mpr ⟨rfl, ?_⟩
      cases others with
      | nil => exact List.nil_prefix
      | cons second more =>
        cases second with
        | p1 => exact absurd List.mem_cons_self hnew
        | p2 =>
          refine List.cons_prefix_cons.mpr ⟨rfl, ?_⟩
          cases more with
          | nil => exact List.nil_prefix
          | cons third _ =>
            cases third with
            | p1 => exact absurd (List.mem_cons_of_mem _ List.mem_cons_self) hnew
            | p2 => exact absurd List.mem_cons_self (List.nodup_cons.mp hothers).1

/-- The reads return the blocks in the order of the writes. -/
theorem Invariant.inOrder (hinv : Invariant outpipe state)
    (hhead : state.writes.head? ≠ some .p2) : InOrder outpipe state := by
  have hprefix : state.writes.take state.parentPc.reads <+: [.p1, .p2] :=
    (List.take_prefix _ _).trans (writes_in_order hinv.nodup hhead)
  rw [InOrder, hinv.received_eq]
  exact hprefix.map (block outpipe)

/-- Once the parent has read the first block, it tells who has written first. -/
theorem Invariant.head_writes_of_inOrder (hinv : Invariant outpipe state)
    (hreads : 1 ≤ state.parentPc.reads) (horder : InOrder outpipe state) :
    state.writes.head? ≠ some .p2 := by
  intro hhead
  obtain ⟨others, hwrites⟩ : ∃ others, state.writes = .p2 :: others :=
    List.head?_eq_some_iff.mp hhead
  obtain ⟨reads, hcount⟩ := Nat.exists_eq_add_of_le hreads
  rw [InOrder, hinv.received_eq, hwrites, hcount, Nat.add_comm, List.take_succ_cons, List.map_cons,
    List.cons_prefix_cons] at horder
  exact absurd (block_injective outpipe horder.1) (by decide)

/-- In every interleaving no read of the parent is stuck on an empty pipe. The reads return the
block of child 1 and then the block of child 2 if child 2 does not write before child 1 has written;
and once the parent has read, only then. -/
theorem pipeOrder_iff (outpipe : CharArray) (schedule : List Actor) :
    ReadsGoOn (run (attempt next) (State.initial outpipe) schedule) ∧
      (Along (attempt next) ChildOneFirst (State.initial outpipe) schedule →
        InOrder outpipe (run (attempt next) (State.initial outpipe) schedule)) ∧
      (1 ≤ (run (attempt next) (State.initial outpipe) schedule).parentPc.reads →
        (InOrder outpipe (run (attempt next) (State.initial outpipe) schedule) ↔
          Along (attempt next) ChildOneFirst (State.initial outpipe) schedule)) := by
  have hinv : Invariant outpipe (run (attempt next) (State.initial outpipe) schedule) :=
    interleaving_invariant (invariant_initial outpipe) (invariant_next outpipe) schedule
  rw [along_childOneFirst_iff]
  exact ⟨hinv.readsGoOn, hinv.inOrder, fun hreads ↦
    ⟨hinv.head_writes_of_inOrder hreads, hinv.inOrder⟩⟩

/-- A schedule in which child 2 takes the lock first. -/
def childTwoFirst : List Actor :=
  [.parent .p1, .parent .p1, .child .p2, .child .p2, .child .p2, .child .p2, .child .p2,
    .parent .p2, .parent .p2]

/-- The first read then returns the block of child 2. -/
theorem not_inOrder_childTwoFirst :
    ¬ InOrder ⟨List.replicate 100 0, List.length_replicate⟩
      (run (attempt next) (State.initial ⟨List.replicate 100 0, List.length_replicate⟩)
        childTwoFirst) := by
  rw [InOrder]
  decide

end KernelExperiments.Processes
