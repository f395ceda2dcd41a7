import KernelExperiments.BlockDevice.DeviceFile
import Mathlib.Logic.Function.Basic

/-!
# Writers that try again

A `device_write` whose copy faults has moved some bytes to the disk, and its offset stays. A program
that writes a message in pieces and tries again after an error does not notice: the next attempt is
at the same offset, and what the failed one has left is overwritten in the end.

Any number of programs write messages to ranges of the disk that do not overlap, each through a file
of its own, in pieces of any length and in any order, with faults anywhere. At all times the bytes
sent of each message are on the disk, behind them are old bytes, zeros and bytes of the message in
its place, and outside the ranges nothing has changed (`retryingWriters_law`). So when all are done
the disk holds the messages (`WritersLaw.complete`).

## Scope

The calls of `device_write` come one after the other.
-/

set_option autoImplicit false
set_option relaxedAutoImplicit false

namespace KernelExperiments.BlockDevice

open Foundation

/-! ### One attempt -/

/-- What an attempt at an offset within the disk does: it fails and leaves the offset and at most
bytes of its own and zeros on its range, or it copies everything. -/
inductive AttemptDoes (file : DeviceFile) (call : WriteCall) : DeviceFile × ℤ → Prop
  | failed (diskContent : Memory)
      (hfailed : Faults call.length.toNat call.fault ∨
        diskSize.toNat < file.offset.toNat + call.length.toNat)
      (hcell : ∀ address, diskContent address = file.diskContent address ∨
        (file.offset.toNat ≤ address ∧ address < file.offset.toNat + call.length.toNat ∧
          (diskContent address = 0 ∨
            diskContent address = call.buffer (address - file.offset.toNat)))) :
      AttemptDoes file call (⟨diskContent, file.offset⟩, efault)
  | copied (hfault : ¬ Faults call.length.toNat call.fault)
      (hinside : file.offset.toNat + call.length.toNat ≤ diskSize.toNat) :
      AttemptDoes file call
        (⟨memcpy file.diskContent file.offset.toNat call.buffer 0 call.length.toNat,
          file.offset + call.length⟩, call.length.toNat)

theorem attemptDoes_deviceWrite {file : DeviceFile} (hoffset : file.offset.toNat ≤ diskSize.toNat)
    (call : WriteCall) : AttemptDoes file call (deviceWrite file call) := by
  have hsize : diskSize.toNat = 16777216 := rfl
  have hfree := @not_freeSpace_lt_iff file call hoffset
  rcases deviceWrite_cases file call with ⟨hrefused, hresult⟩ | ⟨-, hfault, hresult⟩ |
    ⟨hspace, hfault, hresult⟩
  · rw [hresult]
    have hbehind := Nat.not_le.mp fun hinside ↦ hfree.mpr hinside hrefused
    exact .failed _ (Or.inr hbehind) fun address ↦ Or.inl rfl
  · rw [hresult]
    refine .failed _ (Or.inl hfault) fun address ↦ ?_
    unfold copyFromUser
    split_ifs with hlow
    · unfold copiedCell
      have hcopied := copied_le call.length.toNat call.fault
      split_ifs with hmoved hfilled
      · exact Or.inr ⟨hlow, by omega, Or.inr rfl⟩
      · exact Or.inr ⟨hlow, by omega, Or.inl rfl⟩
      · exact Or.inl rfl
    · exact Or.inl rfl
  · have hinside := hfree.mp hspace
    have hret : call.length.toInt = call.length.toNat :=
      BitVec.toInt_eq_toNat_of_lt (by omega)
    rw [hresult, hret]
    exact .copied hfault hinside

/-! ### The writers -/

/-- A message, and the offset of the disk at which it is to be written. -/
structure Task where
  start : BitVec 64
  message : ℕ → UInt8
  total : ℕ

/-- The disk, and for each writer the offset of its file and how much it has sent. -/
structure Writers where
  diskContent : Memory
  offsets : ℕ → BitVec 64
  sent : ℕ → ℕ

/-- A writer asks for the next bytes of its message to be written; the copy may fault. -/
structure Attempt where
  writer : ℕ
  length : BitVec 64
  fault : Option ℕ
  zeroFill : Bool

/-- The call of `device_write`. -/
def Attempt.call (attempt : Attempt) (task : Task) (sent : ℕ) : WriteCall :=
  ⟨fun index ↦ task.message (sent + index), attempt.length, attempt.fault, attempt.zeroFill⟩

/-- A writer goes on by what the call returns, unless that is an error. -/
def Writers.after (state : Writers) (writer : ℕ) (result : DeviceFile × ℤ) : Writers where
  diskContent := result.1.diskContent
  offsets := Function.update state.offsets writer result.1.offset
  sent :=
    if result.2 < 0 then state.sent
    else Function.update state.sent writer (state.sent writer + result.2.toNat)

/-- An attempt. A writer does not ask for more than it has left. -/
def writersStep (tasks : ℕ → Task) (state : Writers) (attempt : Attempt) : Writers :=
  if state.sent attempt.writer + attempt.length.toNat ≤ (tasks attempt.writer).total then
    state.after attempt.writer
      (deviceWrite ⟨state.diskContent, state.offsets attempt.writer⟩
        (attempt.call (tasks attempt.writer) (state.sent attempt.writer)))
  else state

/-- The writers before their first attempts. -/
def Writers.start (tasks : ℕ → Task) (diskContent : Memory) : Writers :=
  ⟨diskContent, fun writer ↦ (tasks writer).start, fun _ ↦ 0⟩

/-- The address is in the range of the writer's message. -/
def Task.Covers (task : Task) (address : ℕ) : Prop :=
  task.start.toNat ≤ address ∧ address < task.start.toNat + task.total

/-- What holds at all times: what has been sent is on the disk within its range, what is behind it
there is old, zero or of the message, and everything else is as it was. -/
structure WritersLaw (tasks : ℕ → Task) (initial : Memory) (state : Writers) : Prop where
  offset_eq : ∀ writer,
    (state.offsets writer).toNat = (tasks writer).start.toNat + state.sent writer
  inside : ∀ writer, (tasks writer).start.toNat + state.sent writer ≤ diskSize.toNat
  sent_le : ∀ writer, state.sent writer ≤ (tasks writer).total
  sent_eq : ∀ writer, ∀ position < state.sent writer,
    state.diskContent ((tasks writer).start.toNat + position) = (tasks writer).message position
  pending : ∀ writer address, (tasks writer).Covers address →
    state.diskContent address = initial address ∨ state.diskContent address = 0 ∨
      state.diskContent address =
        (tasks writer).message (address - (tasks writer).start.toNat)
  outside : ∀ address, (∀ writer, ¬ (tasks writer).Covers address) →
    state.diskContent address = initial address

section Law

variable {tasks : ℕ → Task} {initial : Memory} {state : Writers}

/-- The messages are to be written within the disk, to ranges that do not overlap. -/
structure Apart (tasks : ℕ → Task) : Prop where
  start_le : ∀ writer, (tasks writer).start.toNat ≤ diskSize.toNat
  disjoint : ∀ first second, first ≠ second → ∀ address,
    (tasks first).Covers address → ¬ (tasks second).Covers address

theorem writersLaw_start (hapart : Apart tasks) (initial : Memory) :
    WritersLaw tasks initial (Writers.start tasks initial) where
  offset_eq _ := rfl
  inside := hapart.start_le
  sent_le _ := Nat.zero_le _
  sent_eq _ _ hposition := absurd hposition (Nat.not_lt_zero _)
  pending _ _ _ := Or.inl rfl
  outside _ _ := rfl

/-- A disk that differs where one writer has not yet sent its message, by zeros and bytes of the
message. -/
structure Touched (tasks : ℕ → Task) (state : Writers) (writer : ℕ) (diskContent : Memory) :
    Prop where
  cell : ∀ address, diskContent address = state.diskContent address ∨
    ((tasks writer).start.toNat + state.sent writer ≤ address ∧ (tasks writer).Covers address ∧
      (diskContent address = 0 ∨
        diskContent address = (tasks writer).message (address - (tasks writer).start.toNat)))

/-- What was sent stays. -/
theorem WritersLaw.sent_eq_of_touched (hapart : Apart tasks)
    (hlaw : WritersLaw tasks initial state) {writer : ℕ} {diskContent : Memory}
    (htouched : Touched tasks state writer diskContent) (other : ℕ) {position : ℕ}
    (hposition : position < state.sent other) :
    diskContent ((tasks other).start.toNat + position) = (tasks other).message position := by
  rcases htouched.cell ((tasks other).start.toNat + position) with hsame | ⟨hbehind, hcovers, -⟩
  · rw [hsame, hlaw.sent_eq other position hposition]
  · by_cases hwriter : writer = other
    · subst hwriter
      omega
    · have hsent := hlaw.sent_le other
      exact absurd ⟨Nat.le_add_right _ _, by omega⟩ (hapart.disjoint writer other hwriter _ hcovers)

/-- What is pending stays so. -/
theorem WritersLaw.pending_of_touched (hapart : Apart tasks)
    (hlaw : WritersLaw tasks initial state) {writer : ℕ} {diskContent : Memory}
    (htouched : Touched tasks state writer diskContent) (other : ℕ) {address : ℕ}
    (hother : (tasks other).Covers address) :
    diskContent address = initial address ∨ diskContent address = 0 ∨
      diskContent address = (tasks other).message (address - (tasks other).start.toNat) := by
  rcases htouched.cell address with hsame | ⟨-, hcovers, hvalue⟩
  · rw [hsame]
    exact hlaw.pending other address hother
  · by_cases hwriter : writer = other
    · exact Or.inr (hwriter ▸ hvalue)
    · exact absurd hother (hapart.disjoint writer other hwriter _ hcovers)

/-- Outside the ranges nothing changes. -/
theorem WritersLaw.outside_of_touched (hlaw : WritersLaw tasks initial state) {writer : ℕ}
    {diskContent : Memory} (htouched : Touched tasks state writer diskContent) {address : ℕ}
    (houtside : ∀ other, ¬ (tasks other).Covers address) :
    diskContent address = initial address := by
  rcases htouched.cell address with hsame | ⟨-, hcovers, -⟩
  · rw [hsame, hlaw.outside address houtside]
  · exact absurd hcovers (houtside writer)

/-- What an attempt leaves on the disk. -/
theorem touched_of_attempt {attempt : Attempt} (hlaw : WritersLaw tasks initial state)
    (hfits : state.sent attempt.writer + attempt.length.toNat ≤ (tasks attempt.writer).total)
    {diskContent : Memory}
    (hcell : ∀ address, diskContent address = state.diskContent address ∨
      ((state.offsets attempt.writer).toNat ≤ address ∧
        address < (state.offsets attempt.writer).toNat + attempt.length.toNat ∧
        (diskContent address = 0 ∨ diskContent address =
          (attempt.call (tasks attempt.writer) (state.sent attempt.writer)).buffer
            (address - (state.offsets attempt.writer).toNat)))) :
    Touched tasks state attempt.writer diskContent where
  cell address := by
    have hoffset := hlaw.offset_eq attempt.writer
    rcases hcell address with hsame | ⟨hlow, hhigh, hvalue⟩
    · exact Or.inl hsame
    · have hposition : state.sent attempt.writer +
          (address - (state.offsets attempt.writer).toNat) =
            address - (tasks attempt.writer).start.toNat := by omega
      dsimp only [Attempt.call] at hvalue
      rw [hposition] at hvalue
      exact Or.inr ⟨by omega, ⟨by omega, by omega⟩, hvalue⟩

/-- An attempt that fails keeps the law. -/
theorem WritersLaw.failed (hapart : Apart tasks) (hlaw : WritersLaw tasks initial state)
    {writer : ℕ} {diskContent : Memory} (htouched : Touched tasks state writer diskContent) :
    WritersLaw tasks initial
      (state.after writer (⟨diskContent, state.offsets writer⟩, efault)) := by
  have hafter : state.after writer (⟨diskContent, state.offsets writer⟩, efault) =
      { state with diskContent } := by
    simp only [Writers.after, if_pos efault_neg, Function.update_eq_self]
  rw [hafter]
  exact {
    offset_eq := hlaw.offset_eq
    inside := hlaw.inside
    sent_le := hlaw.sent_le
    sent_eq := fun other _ hposition ↦ hlaw.sent_eq_of_touched hapart htouched other hposition
    pending := fun other _ hcovers ↦ hlaw.pending_of_touched hapart htouched other hcovers
    outside := fun _ houtside ↦ hlaw.outside_of_touched htouched houtside }

/-- An attempt that succeeds keeps the law. -/
theorem WritersLaw.copied (hapart : Apart tasks) (hlaw : WritersLaw tasks initial state)
    {writer : ℕ} {length : BitVec 64} {diskContent : Memory}
    (htouched : Touched tasks state writer diskContent)
    (hfits : state.sent writer + length.toNat ≤ (tasks writer).total)
    (hinside : (state.offsets writer).toNat + length.toNat ≤ diskSize.toNat)
    (hcopied : ∀ position < length.toNat,
      diskContent ((state.offsets writer).toNat + position) =
        (tasks writer).message (state.sent writer + position)) :
    WritersLaw tasks initial
      (state.after writer (⟨diskContent, state.offsets writer + length⟩, length.toNat)) := by
  have hoffset := hlaw.offset_eq writer
  have hsize : diskSize.toNat = 16777216 := rfl
  have hafter : state.after writer (⟨diskContent, state.offsets writer + length⟩, length.toNat) =
      ⟨diskContent, Function.update state.offsets writer (state.offsets writer + length),
        Function.update state.sent writer (state.sent writer + length.toNat)⟩ := by
    have hnonneg : ¬ (length.toNat : ℤ) < 0 := by omega
    simp only [Writers.after, if_neg hnonneg, Int.toNat_natCast]
  rw [hafter]
  constructor
  case offset_eq =>
    intro other
    dsimp only
    by_cases hother : other = writer
    · rw [hother, Function.update_self, Function.update_self, BitVec.toNat_add]
      omega
    · rw [Function.update_of_ne hother, Function.update_of_ne hother, hlaw.offset_eq other]
  case inside =>
    intro other
    dsimp only
    by_cases hother : other = writer
    · rw [hother, Function.update_self]
      omega
    · rw [Function.update_of_ne hother]
      exact hlaw.inside other
  case sent_le =>
    intro other
    dsimp only
    by_cases hother : other = writer
    · rw [hother, Function.update_self]
      exact hfits
    · rw [Function.update_of_ne hother]
      exact hlaw.sent_le other
  case sent_eq =>
    intro other position hposition
    dsimp only at hposition ⊢
    by_cases hold : position < state.sent other
    · exact hlaw.sent_eq_of_touched hapart htouched other hold
    · by_cases hother : other = writer
      · subst hother
        rw [Function.update_self] at hposition
        have hnew := hcopied (position - state.sent other) (by omega)
        rwa [hoffset, Nat.add_assoc, Nat.add_sub_cancel' (Nat.not_lt.mp hold)] at hnew
      · rw [Function.update_of_ne hother] at hposition
        exact absurd hposition hold
  case pending =>
    exact fun other _ hcovers ↦ hlaw.pending_of_touched hapart htouched other hcovers
  case outside => exact fun _ houtside ↦ hlaw.outside_of_touched htouched houtside

/-- An attempt keeps the law. -/
theorem WritersLaw.step (hapart : Apart tasks) (hlaw : WritersLaw tasks initial state)
    (attempt : Attempt) : WritersLaw tasks initial (writersStep tasks state attempt) := by
  unfold writersStep
  by_cases hfits :
    state.sent attempt.writer + attempt.length.toNat ≤ (tasks attempt.writer).total
  case neg =>
    rw [if_neg hfits]
    exact hlaw
  rw [if_pos hfits]
  have hwithin : (state.offsets attempt.writer).toNat ≤ diskSize.toNat :=
    hlaw.offset_eq attempt.writer ▸ hlaw.inside attempt.writer
  have hdoes := @attemptDoes_deviceWrite ⟨state.diskContent, state.offsets attempt.writer⟩ hwithin
    (attempt.call (tasks attempt.writer) (state.sent attempt.writer))
  generalize deviceWrite _ _ = result at hdoes ⊢
  cases hdoes with
  | failed diskContent _ hcell => exact hlaw.failed hapart (touched_of_attempt hlaw hfits hcell)
  | copied hfault hinside =>
    refine hlaw.copied hapart (touched_of_attempt hlaw hfits fun address ↦ ?_) hfits hinside
      fun position hposition ↦ ?_
    · dsimp only
      unfold memcpy
      split_ifs with hmem
      · exact Or.inr ⟨hmem.1, hmem.2, Or.inr (by rw [Nat.zero_add])⟩
      · exact Or.inl rfl
    · dsimp only
      rw [memcpy_of_mem (Nat.le_add_right _ _) (Nat.add_lt_add_left hposition _), Nat.zero_add,
        Nat.add_sub_cancel_left]
      rfl

/-- An attempt that fits into the message and the disk and does not fault is not in vain. -/
theorem sent_writersStep {attempt : Attempt}
    (hfits : state.sent attempt.writer + attempt.length.toNat ≤ (tasks attempt.writer).total)
    (hspace : (state.offsets attempt.writer).toNat + attempt.length.toNat ≤ diskSize.toNat)
    (hfault : ¬ Faults attempt.length.toNat attempt.fault) :
    (writersStep tasks state attempt).sent attempt.writer =
      state.sent attempt.writer + attempt.length.toNat := by
  have hwithin : (state.offsets attempt.writer).toNat ≤ diskSize.toNat :=
    Nat.le_trans (Nat.le_add_right _ _) hspace
  unfold writersStep
  rw [if_pos hfits]
  have hdoes := @attemptDoes_deviceWrite ⟨state.diskContent, state.offsets attempt.writer⟩ hwithin
    (attempt.call (tasks attempt.writer) (state.sent attempt.writer))
  generalize deviceWrite _ _ = result at hdoes ⊢
  cases hdoes with
  | failed diskContent hfailed _ =>
    exact (hfailed.elim hfault (Nat.not_lt.mpr hspace)).elim
  | copied _ _ =>
    have hnonneg : ¬ (attempt.length.toNat : ℤ) < 0 := by omega
    dsimp only [Writers.after, Attempt.call]
    rw [if_neg hnonneg, Function.update_self, Int.toNat_natCast]

/-- When all messages are sent the disk holds them, and otherwise what it held at first. -/
theorem WritersLaw.complete (hlaw : WritersLaw tasks initial state)
    (hsent : ∀ writer, state.sent writer = (tasks writer).total) (address : ℕ) :
    (∀ writer, (tasks writer).Covers address → state.diskContent address =
        (tasks writer).message (address - (tasks writer).start.toNat)) ∧
      ((∀ writer, ¬ (tasks writer).Covers address) →
        state.diskContent address = initial address) := by
  refine ⟨fun writer ⟨hlow, hhigh⟩ ↦ ?_, hlaw.outside address⟩
  have hposition := hlaw.sent_eq writer (address - (tasks writer).start.toNat)
    (by rw [hsent]; omega)
  rwa [Nat.add_sub_cancel' hlow] at hposition

/-- Any writers write messages to ranges of the disk that do not overlap, in any order and with
faults anywhere. The law holds at all times, an attempt that fits and does not fault gets on, and in
the end the disk holds the messages and is otherwise as it was. -/
theorem retryingWriters_law (hapart : Apart tasks) (initial : Memory) (attempts : List Attempt)
    (hstate : state = run (writersStep tasks) (Writers.start tasks initial) attempts) :
    WritersLaw tasks initial state ∧
      (∀ attempt : Attempt,
        state.sent attempt.writer + attempt.length.toNat ≤ (tasks attempt.writer).total →
        (state.offsets attempt.writer).toNat + attempt.length.toNat ≤ diskSize.toNat →
        ¬ Faults attempt.length.toNat attempt.fault →
          (writersStep tasks state attempt).sent attempt.writer =
            state.sent attempt.writer + attempt.length.toNat) ∧
      ((∀ writer, state.sent writer = (tasks writer).total) → ∀ address,
        (∀ writer, (tasks writer).Covers address → state.diskContent address =
          (tasks writer).message (address - (tasks writer).start.toNat)) ∧
        ((∀ writer, ¬ (tasks writer).Covers address) →
          state.diskContent address = initial address)) := by
  have hstep : ∀ state attempt, WritersLaw tasks initial state →
      WritersLaw tasks initial (writersStep tasks state attempt) :=
    fun _ attempt hlaw ↦ hlaw.step hapart attempt
  have hlaw : WritersLaw tasks initial state :=
    hstate ▸ run_invariant hstep (writersLaw_start hapart initial) attempts
  exact ⟨hlaw, fun _ hfits hspace hfault ↦ sent_writersStep hfits hspace hfault, hlaw.complete⟩

end Law

/-- Two messages of three bytes, one behind the other. -/
def twoTasks : ℕ → Task
  | 0 => ⟨4#64, fun _ ↦ 7, 3⟩
  | 1 => ⟨7#64, fun _ ↦ 9, 3⟩
  | _ => ⟨0#64, fun _ ↦ 0, 0⟩

theorem apart_twoTasks : Apart twoTasks where
  start_le writer := by
    rcases writer with _ | _ | writer
    · decide
    · decide
    · exact Nat.zero_le _
  disjoint first second hne address hfirst hsecond := by
    have hstart : (4#64).toNat = 4 ∧ (7#64).toNat = 7 := ⟨rfl, rfl⟩
    obtain ⟨hlow, hhigh⟩ := hfirst
    obtain ⟨hlowSecond, hhighSecond⟩ := hsecond
    rcases first with _ | _ | first <;> rcases second with _ | _ | second <;>
      simp only [twoTasks] at hlow hhigh hlowSecond hhighSecond <;> omega

/-- The first writer fails, with zeros behind the fault, and tries again in two pieces; the second
one comes between. -/
def attemptsWithFault : List Attempt :=
  [⟨0, 3, some 1, true⟩, ⟨1, 3, none, false⟩, ⟨0, 2, none, false⟩, ⟨0, 1, none, false⟩]

/-- In the end both messages are there. -/
theorem attemptsWithFault_disk :
    (run (writersStep twoTasks) (Writers.start twoTasks fun _ ↦ 1) attemptsWithFault).diskContent
        6 = 7 :=
  (retryingWriters_law apart_twoTasks (fun _ ↦ 1) attemptsWithFault rfl).1.sent_eq 0 2 (by decide)

end KernelExperiments.BlockDevice
